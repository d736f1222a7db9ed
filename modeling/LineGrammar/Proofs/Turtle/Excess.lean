/-
How long a line is, by counting alone.  The orders to go back that find nothing saved are as
many as the most by which they outnumber the orders to save in some beginning of the word.
Each of the others adds three vertices, and each order to go forward adds one.
-/
import Mathlib.Data.Int.Order.Basic
import Mathlib.Order.Bounds.Basic
import LineGrammar.Proofs.Growth.Brackets
import LineGrammar.Proofs.Turtle.Course

namespace LineGrammar

namespace Interpretation

def advances (table : Interpretation) (word : Word) : Nat :=
  word.countP fun symbol => table.get? symbol = some .goForward

theorem sum_yieldOf (table : Interpretation) (word : Word) :
    (word.map table.yieldOf).sum = table.advances word + 3 * table.loads word := by
  induction word with
  | nil => rfl
  | cons symbol word ih =>
      rw [List.map_cons, List.sum_cons, ih, loads_cons, advances, advances, List.countP_cons]
      cases horder : table.get? symbol with
      | none => simp [yieldOf, horder]
      | some order =>
          cases order <;> simp [yieldOf, horder, Order.vertexYield] <;> omega

end Interpretation

namespace Turtle

variable (settings : TurtleSettings) (table : Interpretation)

theorem vainLoads_cons (turtle : Turtle) (symbol : Char) (word : Word) :
    turtle.vainLoads settings table (symbol :: word) =
      (if table.get? symbol = some .loadPosition ∧ turtle.saved = [] then 1 else 0)
        + (turtle.heed settings table symbol).2.vainLoads settings table word := by
  cases horder : table.get? symbol with
  | none => simp [vainLoads, heed, horder]
  | some order => simp [vainLoads, heed, horder]

/-- An order to save adds a pose to the saved ones, and an order to go back takes one away
unless it is in vain. -/
theorem length_saved_heed (turtle : Turtle) (symbol : Char) :
    (turtle.heed settings table symbol).2.saved.length
        + (if table.get? symbol = some .loadPosition then 1 else 0) =
      turtle.saved.length + (if table.get? symbol = some .savePosition then 1 else 0)
        + (if table.get? symbol = some .loadPosition ∧ turtle.saved = [] then 1 else 0) := by
  rcases heed_cases settings table turtle symbol with
    ⟨hsave, hheed⟩ | ⟨hload, pose, saved, hsaved, hheed⟩ | ⟨hforward, pose, hheed⟩ |
      ⟨hsave, hvain, heading, hheed⟩
  · simp [hheed, hsave]
  · simp [hheed, hload, hsaved]
  · simp [hheed, hforward]
  · by_cases hload : table.get? symbol = some .loadPosition
    · simp [hheed, hload, hvain hload]
    · simp [hheed, hsave, hload]

/-- No beginning of a word goes back more often than poses are there for it, but for the orders
to go back in vain. -/
theorem loads_le_of_prefix (turtle : Turtle) {word beginning : Word}
    (h : beginning <+: word) :
    table.loads beginning ≤ turtle.saved.length + table.saves beginning
      + turtle.vainLoads settings table word := by
  induction word generalizing turtle beginning with
  | nil =>
      rw [List.prefix_nil.mp h]
      exact Nat.zero_le _
  | cons symbol word ih =>
      rcases List.prefix_cons_iff.mp h with rfl | ⟨shorter, rfl, hshorter⟩
      · exact Nat.zero_le _
      · have hrest := ih (turtle.heed settings table symbol).2 hshorter
        have hlength := length_saved_heed settings table turtle symbol
        rw [Interpretation.loads_cons, Interpretation.saves_cons, vainLoads_cons]
        omega

/-- If any order to go back is in vain, some beginning goes back more often than poses are
there for it by just the number of these orders. -/
theorem exists_prefix_loads_eq (turtle : Turtle) (word : Word) :
    turtle.vainLoads settings table word = 0 ∨ ∃ beginning, beginning <+: word ∧
      table.loads beginning = turtle.saved.length + table.saves beginning
        + turtle.vainLoads settings table word := by
  induction word generalizing turtle with
  | nil => exact Or.inl rfl
  | cons symbol word ih =>
      have hlength := length_saved_heed settings table turtle symbol
      rw [vainLoads_cons]
      rcases ih (turtle.heed settings table symbol).2 with hzero | ⟨beginning, hprefix, heq⟩
      · -- Nothing is in vain after the first symbol, so that is a beginning as wanted or
        -- there is none.
        by_cases hvain : table.get? symbol = some .loadPosition ∧ turtle.saved = []
        · refine Or.inr ⟨[symbol], ⟨word, rfl⟩, ?_⟩
          rw [Interpretation.loads_cons, Interpretation.saves_cons, hzero]
          simp [hvain, Interpretation.loads, Interpretation.saves]
        · rw [if_neg hvain]
          exact Or.inl (by omega)
      · refine Or.inr ⟨symbol :: beginning, (List.prefix_cons_inj symbol).mpr hprefix, ?_⟩
        rw [Interpretation.loads_cons, Interpretation.saves_cons]
        omega

/-- A turtle with nothing saved goes back in vain as often as its orders to go back outnumber
those to save, at the most, in the beginnings of its word. -/
theorem isGreatest_vainLoads (turtle : Turtle) (hsaved : turtle.saved = []) (word : Word) :
    IsGreatest {excess : ℤ | ∃ beginning, beginning <+: word ∧
      excess = table.loads beginning - table.saves beginning}
      (turtle.vainLoads settings table word) := by
  constructor
  · rcases exists_prefix_loads_eq settings table turtle word with hzero | ⟨beginning, hprefix, heq⟩
    · exact ⟨[], List.nil_prefix, by rw [hzero]; rfl⟩
    · rw [hsaved, List.length_nil] at heq
      exact ⟨beginning, hprefix, by omega⟩
  · rintro excess ⟨beginning, hprefix, rfl⟩
    have hle := loads_le_of_prefix settings table turtle hprefix
    rw [hsaved, List.length_nil] at hle
    omega

/-- The length of a line in closed form. -/
theorem size_draw_eq_of_excess {word : Word} {counts : List Nat}
    (hlength : word.length = counts.length) :
    ∃ (stream : Stream) (excess : ℤ), draw settings table word counts = .ok stream ∧
      IsGreatest {excess : ℤ | ∃ beginning, beginning <+: word ∧
        excess = table.loads beginning - table.saves beginning} excess ∧
      (stream.size : ℤ) = 1 + table.advances word + 3 * (table.loads word - excess) := by
  obtain ⟨stream, hdraw, hsize⟩ := size_draw settings table hlength
  rw [table.sum_yieldOf] at hsize
  refine ⟨stream, _, hdraw, isGreatest_vainLoads settings table (atStart settings) rfl word, ?_⟩
  omega

/-- Of four orders to go back the first and the last are in vain. -/
theorem size_draw_eq_of_excess_two :
    let word : Word := [']', 'F', '[', 'F', '[', ']', ']', ']']
    let counts : List Nat := [0, 1, 1, 2, 1, 1, 0, 0]
    word.length = counts.length ∧
      IsGreatest {excess : ℤ | ∃ beginning, beginning <+: word ∧ excess =
        Interpretation.default.loads beginning - Interpretation.default.saves beginning} 2 ∧
      ∃ stream, draw .default .default word counts = .ok stream ∧ stream.size = 9 := by
  intro word counts
  have hgreatest : IsGreatest {excess : ℤ | ∃ beginning, beginning <+: word ∧ excess =
      Interpretation.default.loads beginning - Interpretation.default.saves beginning} 2 := by
    constructor
    · exact ⟨word, List.prefix_rfl, by decide +kernel⟩
    · rintro excess ⟨beginning, hprefix, rfl⟩
      have hall : ∀ beginning ∈ word.inits, (Interpretation.default.loads beginning : ℤ)
          - Interpretation.default.saves beginning ≤ 2 := by
        decide +kernel
      exact hall beginning ((List.mem_inits beginning word).mpr hprefix)
  obtain ⟨stream, excess, hdraw, hexcess, hsize⟩ :=
    @size_draw_eq_of_excess .default .default word counts rfl
  have hadvances : Interpretation.default.advances word = 2 := by decide +kernel
  have hloads : Interpretation.default.loads word = 4 := by decide +kernel
  rw [hexcess.unique hgreatest, hadvances, hloads] at hsize
  exact ⟨rfl, hgreatest, stream, hdraw, by omega⟩

end Turtle

end LineGrammar
