/-
Tables from single symbols to values, at most one value for each symbol, listed
in ascending order of the symbols.
-/

namespace LineGrammar

/-- One entry for each symbol that has a value, in ascending order. -/
structure RuleTable (V : Type u) where
  entries : List (Char × V)
  ascending : entries.Pairwise (fun a b => a.1 < b.1)

namespace RuleTable

variable {V : Type u}

instance [DecidableEq V] : DecidableEq (RuleTable V) := fun s t =>
  if h : s.entries = t.entries then
    .isTrue (by cases s; cases t; simp_all)
  else
    .isFalse (fun hst => h (hst ▸ rfl))

/-- The value of the first entry for a symbol. -/
def lookup (symbol : Char) : List (Char × V) → Option V
  | [] => none
  | (key, value) :: rest => if key = symbol then some value else lookup symbol rest

/-- Put an entry before the first larger symbol, in place of an entry for the
same symbol. -/
def insertEntry (symbol : Char) (value : V) : List (Char × V) → List (Char × V)
  | [] => [(symbol, value)]
  | (key, other) :: rest =>
      if symbol < key then (symbol, value) :: (key, other) :: rest
      else if symbol = key then (symbol, value) :: rest
      else (key, other) :: insertEntry symbol value rest

theorem mem_insertEntry {entry : Char × V} {symbol : Char} {value : V}
    {entries : List (Char × V)} (h : entry ∈ insertEntry symbol value entries) :
    entry = (symbol, value) ∨ entry ∈ entries := by
  induction entries with
  | nil => exact Or.inl (List.mem_singleton.mp h)
  | cons head rest ih =>
      obtain ⟨key, other⟩ := head
      simp only [insertEntry] at h
      split at h
      · exact List.mem_cons.mp h
      · split at h
        · rcases List.mem_cons.mp h with h | h
          · exact Or.inl h
          · exact Or.inr (List.mem_cons_of_mem _ h)
        · rcases List.mem_cons.mp h with rfl | h
          · exact Or.inr List.mem_cons_self
          · exact (ih h).imp_right (List.mem_cons_of_mem _)

theorem insertEntry_ascending (symbol : Char) (value : V) {entries : List (Char × V)}
    (h : entries.Pairwise (fun a b => a.1 < b.1)) :
    (insertEntry symbol value entries).Pairwise (fun a b => a.1 < b.1) := by
  induction entries with
  | nil => simp [insertEntry]
  | cons head rest ih =>
      obtain ⟨key, other⟩ := head
      have hrest := List.pairwise_cons.mp h
      simp only [insertEntry]
      split
      · next hlt =>
          refine List.pairwise_cons.mpr ⟨fun entry hentry => ?_, h⟩
          rcases List.mem_cons.mp hentry with rfl | hentry
          · exact hlt
          · exact Char.lt_trans hlt (hrest.1 entry hentry)
      · next hnot =>
          split
          · next heq =>
              exact List.pairwise_cons.mpr ⟨fun entry hentry => heq ▸ hrest.1 entry hentry,
                hrest.2⟩
          · next hne =>
              refine List.pairwise_cons.mpr ⟨fun entry hentry => ?_, ih hrest.2⟩
              rcases mem_insertEntry hentry with rfl | hentry
              · exact Std.lt_of_le_of_ne (Char.not_lt.mp hnot) (Ne.symm hne)
              · exact hrest.1 entry hentry

def empty : RuleTable V := ⟨[], .nil⟩

def get? (table : RuleTable V) (symbol : Char) : Option V :=
  lookup symbol table.entries

/-- Give a symbol a value, in place of the one it had. -/
def insert (table : RuleTable V) (symbol : Char) (value : V) : RuleTable V :=
  ⟨insertEntry symbol value table.entries, insertEntry_ascending symbol value table.ascending⟩

def erase (table : RuleTable V) (symbol : Char) : RuleTable V :=
  ⟨table.entries.filter (fun entry => entry.1 ≠ symbol), table.ascending.filter _⟩

/-- Entries inserted one after another, so that later ones win. -/
def ofList (entries : List (Char × V)) : RuleTable V :=
  entries.foldl (fun table entry => table.insert entry.1 entry.2) empty

/-- The symbols that have a value, in ascending order. -/
def symbols (table : RuleTable V) : List Char :=
  table.entries.map (·.1)

def size (table : RuleTable V) : Nat :=
  table.entries.length

/-- The same symbols with each value changed. -/
def mapValues {W : Type v} (f : V → W) (table : RuleTable V) : RuleTable W :=
  ⟨table.entries.map (fun entry => (entry.1, f entry.2)),
    List.pairwise_map.mpr table.ascending⟩

theorem lookup_insertEntry (symbol other : Char) (value : V) (entries : List (Char × V)) :
    lookup other (insertEntry symbol value entries) =
      if symbol = other then some value else lookup other entries := by
  induction entries with
  | nil => rfl
  | cons head rest ih =>
      obtain ⟨key, current⟩ := head
      simp only [insertEntry]
      split
      · rfl
      · split
        · next heq =>
            simp only [lookup, heq]
            split <;> rfl
        · next hne =>
            simp only [lookup, ih]
            split
            · next hkey => rw [if_neg (fun h => hne (h.trans hkey.symm))]
            · rfl

@[simp] theorem get?_empty (symbol : Char) : (empty : RuleTable V).get? symbol = none :=
  rfl

theorem get?_insert (table : RuleTable V) (symbol other : Char) (value : V) :
    (table.insert symbol value).get? other =
      if symbol = other then some value else table.get? other :=
  lookup_insertEntry symbol other value table.entries

theorem get?_erase (table : RuleTable V) (symbol other : Char) :
    (table.erase symbol).get? other =
      if symbol = other then none else table.get? other := by
  unfold get? erase
  simp only
  induction table.entries with
  | nil => simp [lookup]
  | cons head rest ih =>
      obtain ⟨key, current⟩ := head
      by_cases hkey : key = symbol
      · subst hkey
        by_cases hother : key = other <;> simp_all [lookup]
      · by_cases hother : key = other
        · subst hother
          simp [lookup, hkey, Ne.symm hkey]
        · simp_all [lookup]

theorem eq_of_entries {s t : RuleTable V} (h : s.entries = t.entries) : s = t := by
  cases s
  cases t
  simp_all

theorem lookup_eq_none_iff (symbol : Char) (entries : List (Char × V)) :
    lookup symbol entries = none ↔ ∀ entry ∈ entries, entry.1 ≠ symbol := by
  induction entries with
  | nil => simp [lookup]
  | cons head rest ih =>
      obtain ⟨key, value⟩ := head
      by_cases hkey : key = symbol <;> simp [lookup, hkey, ih]

theorem mem_of_lookup {symbol : Char} {value : V} {entries : List (Char × V)}
    (h : lookup symbol entries = some value) : (symbol, value) ∈ entries := by
  induction entries with
  | nil => cases h
  | cons head rest ih =>
      obtain ⟨key, other⟩ := head
      by_cases hkey : key = symbol
      · simp_all [lookup]
      · rw [lookup, if_neg hkey] at h
        exact List.mem_cons_of_mem _ (ih h)

theorem mem_entries_of_get? {table : RuleTable V} {symbol : Char} {value : V}
    (h : table.get? symbol = some value) : (symbol, value) ∈ table.entries :=
  mem_of_lookup h

/-- Nothing is taken away where there is nothing. -/
theorem erase_of_get?_eq_none {table : RuleTable V} {symbol : Char}
    (h : table.get? symbol = none) : table.erase symbol = table := by
  have hnone := (lookup_eq_none_iff symbol table.entries).mp h
  apply eq_of_entries
  exact List.filter_eq_self.mpr fun entry hentry => decide_eq_true (hnone entry hentry)

theorem mem_symbols_iff (table : RuleTable V) (symbol : Char) :
    symbol ∈ table.symbols ↔ (table.get? symbol).isSome := by
  unfold symbols get?
  induction table.entries with
  | nil => simp [lookup]
  | cons head rest ih =>
      obtain ⟨key, current⟩ := head
      by_cases hkey : key = symbol
      · simp [lookup, hkey]
      · simp only [List.map_cons, List.mem_cons, lookup, if_neg hkey, ← ih]
        exact or_iff_right (Ne.symm hkey)

theorem insertEntry_of_forall_lt (symbol : Char) (value : V) (entries : List (Char × V))
    (h : ∀ entry ∈ entries, entry.1 < symbol) :
    insertEntry symbol value entries = entries ++ [(symbol, value)] := by
  induction entries with
  | nil => rfl
  | cons head rest ih =>
      obtain ⟨key, other⟩ := head
      have hkey : key < symbol := h (key, other) List.mem_cons_self
      have hrest := ih fun entry hentry => h entry (List.mem_cons_of_mem _ hentry)
      rw [insertEntry, if_neg (Char.lt_asymm hkey), if_neg (Char.ne_of_lt hkey).symm, hrest]
      rfl

/-- Entries beyond all those of a table are put behind them. -/
theorem entries_foldl_insert (entries : List (Char × V)) (table : RuleTable V)
    (h : (table.entries ++ entries).Pairwise (fun a b => a.1 < b.1)) :
    (entries.foldl (fun table entry => table.insert entry.1 entry.2) table).entries =
      table.entries ++ entries := by
  induction entries generalizing table with
  | nil => simp
  | cons head rest ih =>
      have hhead : ∀ entry ∈ table.entries, entry.1 < head.1 := fun entry hentry =>
        (List.pairwise_append.mp h).2.2 entry hentry head List.mem_cons_self
      have hinsert : (table.insert head.1 head.2).entries = table.entries ++ [head] :=
        insertEntry_of_forall_lt head.1 head.2 table.entries hhead
      have hpairwise : ((table.insert head.1 head.2).entries ++ rest).Pairwise
          (fun a b => a.1 < b.1) := by
        rw [hinsert, List.append_assoc]
        exact h
      rw [List.foldl_cons, ih _ hpairwise, hinsert, List.append_assoc]
      rfl

/-- The entries of a table, inserted one after another, give it back. -/
@[simp] theorem ofList_entries (table : RuleTable V) : ofList table.entries = table := by
  apply eq_of_entries
  exact entries_foldl_insert table.entries empty table.ascending

end RuleTable

end LineGrammar
