/-
Finite sets of symbols, kept as their members in ascending order.
-/

namespace LineGrammar

/-- A finite set of symbols. -/
structure SymbolSet where
  members : List Char
  ascending : members.Pairwise (· < ·)

namespace SymbolSet

instance : DecidableEq SymbolSet := fun s t =>
  if h : s.members = t.members then
    .isTrue (by cases s; cases t; simp_all)
  else
    .isFalse (fun hst => h (hst ▸ rfl))

/-- Insert a symbol before the first larger one. -/
def insertMember (symbol : Char) : List Char → List Char
  | [] => [symbol]
  | head :: tail =>
      if symbol < head then symbol :: head :: tail
      else if symbol = head then head :: tail
      else head :: insertMember symbol tail

@[simp] theorem mem_insertMember (x symbol : Char) (members : List Char) :
    x ∈ insertMember symbol members ↔ x = symbol ∨ x ∈ members := by
  induction members with
  | nil => simp [insertMember]
  | cons head tail ih =>
      simp only [insertMember]
      split
      · simp
      · split
        · simp_all
        · simp only [List.mem_cons, ih]
          exact or_left_comm

theorem insertMember_ascending (symbol : Char) {members : List Char}
    (h : members.Pairwise (· < ·)) : (insertMember symbol members).Pairwise (· < ·) := by
  induction members with
  | nil => simp [insertMember]
  | cons head tail ih =>
      have htail := List.pairwise_cons.mp h
      simp only [insertMember]
      split
      · next hlt =>
          refine List.pairwise_cons.mpr ⟨fun x hx => ?_, h⟩
          rcases List.mem_cons.mp hx with rfl | hx
          · exact hlt
          · exact Char.lt_trans hlt (htail.1 x hx)
      · next hnot =>
          split
          · exact h
          · next hne =>
              refine List.pairwise_cons.mpr ⟨fun x hx => ?_, ih htail.2⟩
              rcases (mem_insertMember x symbol tail).mp hx with rfl | hx
              · exact Std.lt_of_le_of_ne (Char.not_lt.mp hnot) (Ne.symm hne)
              · exact htail.1 x hx

def empty : SymbolSet := ⟨[], .nil⟩

def insert (symbol : Char) (set : SymbolSet) : SymbolSet :=
  ⟨insertMember symbol set.members, insertMember_ascending symbol set.ascending⟩

def insertAll (set : SymbolSet) (symbols : List Char) : SymbolSet :=
  symbols.foldl (fun result symbol => result.insert symbol) set

def ofList (symbols : List Char) : SymbolSet :=
  empty.insertAll symbols

instance : Membership Char SymbolSet where
  mem set symbol := symbol ∈ set.members

instance (symbol : Char) (set : SymbolSet) : Decidable (symbol ∈ set) :=
  inferInstanceAs (Decidable (symbol ∈ set.members))

@[simp] theorem mem_insert (x symbol : Char) (set : SymbolSet) :
    x ∈ set.insert symbol ↔ x = symbol ∨ x ∈ set :=
  mem_insertMember x symbol set.members

@[simp] theorem mem_insertAll (x : Char) (set : SymbolSet) (symbols : List Char) :
    x ∈ set.insertAll symbols ↔ x ∈ symbols ∨ x ∈ set := by
  induction symbols generalizing set with
  | nil => simp [insertAll]
  | cons head tail ih =>
      have hstep : set.insertAll (head :: tail) = (set.insert head).insertAll tail := rfl
      rw [hstep, ih, mem_insert, List.mem_cons]
      exact or_left_comm.trans or_assoc.symm

@[simp] theorem mem_ofList (x : Char) (symbols : List Char) :
    x ∈ ofList symbols ↔ x ∈ symbols := by
  rw [ofList, mem_insertAll]
  exact or_iff_left List.not_mem_nil

theorem insertMember_of_forall_lt (symbol : Char) (members : List Char)
    (h : ∀ member ∈ members, member < symbol) :
    insertMember symbol members = members ++ [symbol] := by
  induction members with
  | nil => rfl
  | cons head tail ih =>
      have hhead : head < symbol := h head List.mem_cons_self
      have htail := ih fun member hmember => h member (List.mem_cons_of_mem _ hmember)
      rw [insertMember, if_neg (Char.lt_asymm hhead), if_neg (Char.ne_of_lt hhead).symm, htail]
      rfl

theorem eq_of_members {s t : SymbolSet} (h : s.members = t.members) : s = t := by
  cases s
  cases t
  simp_all

/-- Symbols beyond all members of a set are put behind them. -/
theorem members_insertAll (set : SymbolSet) (symbols : List Char)
    (h : (set.members ++ symbols).Pairwise (· < ·)) :
    (set.insertAll symbols).members = set.members ++ symbols := by
  induction symbols generalizing set with
  | nil => simp [insertAll]
  | cons head tail ih =>
      have hhead : ∀ member ∈ set.members, member < head := fun member hmember =>
        (List.pairwise_append.mp h).2.2 member hmember head List.mem_cons_self
      have hinsert : (set.insert head).members = set.members ++ [head] :=
        insertMember_of_forall_lt head set.members hhead
      have hpairwise : ((set.insert head).members ++ tail).Pairwise (· < ·) := by
        rw [hinsert, List.append_assoc]
        exact h
      have hstep : set.insertAll (head :: tail) = (set.insert head).insertAll tail := rfl
      rw [hstep, ih _ hpairwise, hinsert, List.append_assoc]
      rfl

/-- The members of a set make it up. -/
@[simp] theorem ofList_members (set : SymbolSet) : ofList set.members = set := by
  apply eq_of_members
  exact members_insertAll empty set.members set.ascending

end SymbolSet

end LineGrammar
