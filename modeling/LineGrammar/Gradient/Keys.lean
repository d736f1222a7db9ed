/-
What gradients of either kind ask of their keys before they change them.
-/
import LineGrammar.Fault

namespace LineGrammar

namespace Keys

variable {K : Type}

def inSlot (keys : List K) (slot : Nat) : Except Fault K :=
  match keys[slot]? with
  | none => .error (.noSuchKey slot)
  | some key => .ok key

/-- Refuse to go below two keys. -/
def checkSpare (keys : List K) : Except Fault Unit :=
  if keys.length ≤ 2 then .error .gradientTooShort else .ok ()

theorem inSlot_eq_ok_iff (keys : List K) (slot : Nat) (key : K) :
    inSlot keys slot = .ok key ↔ keys[slot]? = some key := by
  unfold inSlot
  split <;> simp_all

theorem inSlot_eq_error_iff (keys : List K) (slot : Nat) (fault : Fault) :
    inSlot keys slot = .error fault ↔ keys.length ≤ slot ∧ fault = .noSuchKey slot := by
  unfold inSlot
  split
  · next hslot => simp [List.getElem?_eq_none_iff.mp hslot, eq_comm]
  · next key hslot => simp [Nat.not_le_of_lt (List.getElem?_eq_some_iff.mp hslot).1]

theorem checkSpare_eq_ok_iff (keys : List K) : checkSpare keys = .ok () ↔ 2 < keys.length := by
  unfold checkSpare
  split <;> simp_all

theorem checkSpare_eq_error_iff (keys : List K) (fault : Fault) :
    checkSpare keys = .error fault ↔ keys.length ≤ 2 ∧ fault = .gradientTooShort := by
  unfold checkSpare
  split
  · next hfew => simp [hfew, eq_comm]
  · next hmany => simp [hmany]

/-- What a key has in common with the one that takes its place is there as before. -/
theorem map_set_of_getElem? {V : Type} (f : K → V) {keys : List K} {slot : Nat} {key : K}
    (hslot : keys[slot]? = some key) (key' : K) (hsame : f key' = f key) :
    (keys.set slot key').map f = keys.map f := by
  obtain ⟨hlt, rfl⟩ := List.getElem?_eq_some_iff.mp hslot
  have hlt' : slot < (keys.map f).length := by rwa [List.length_map]
  rw [List.map_set, hsame, ← List.getElem_map f (h := hlt'), List.set_getElem_self]

end Keys

end LineGrammar
