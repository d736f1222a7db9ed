/-
How long the line of a word becomes.  Every symbol adds as many vertices as its order
promises, except that an order to go back adds none of its three where nothing is
saved.
-/
import LineGrammar.Proofs.Growth.Counting
import LineGrammar.Proofs.Turtle.Trail

namespace LineGrammar

namespace Turtle

/-- How many orders to go back a turtle meets with nothing saved, on its way over a
word. -/
def vainLoads (settings : TurtleSettings) (table : Interpretation) : Turtle → Word → Nat
  | _, [] => 0
  | turtle, symbol :: word =>
      match table.get? symbol with
      | none => vainLoads settings table turtle word
      | some order =>
          (if order = .loadPosition ∧ turtle.saved = [] then 1 else 0)
            + vainLoads settings table (turtle.follow settings order).2 word

/-- The marks of one order, and the three missing ones of a return in vain. -/
theorem length_follow (settings : TurtleSettings) (turtle : Turtle) (order : Order) :
    (turtle.follow settings order).1.length
        + 3 * (if order = .loadPosition ∧ turtle.saved = [] then 1 else 0) =
      order.vertexYield := by
  cases order with
  | goForward => rfl
  | turnRight => rfl
  | turnLeft => rfl
  | savePosition => rfl
  | loadPosition =>
      cases hsaved : turtle.saved with
      | nil => simp [follow, hsaved, Order.vertexYield]
      | cons pose saved => simp [follow, hsaved, Order.vertexYield]

/-- On its way over a word a turtle leaves the marks that the symbols promise, but for the
returns in vain. -/
theorem length_trail (settings : TurtleSettings) (table : Interpretation) (turtle : Turtle)
    (word : Word) :
    (turtle.trail settings table word).length + 3 * turtle.vainLoads settings table word =
      (word.map table.yieldOf).sum := by
  induction word generalizing turtle with
  | nil => rfl
  | cons symbol word ih =>
      rw [List.map_cons, List.sum_cons]
      cases horder : table.get? symbol with
      | none => simpa [trail, vainLoads, Interpretation.yieldOf, horder] using ih turtle
      | some order =>
          have hrest := ih (turtle.follow settings order).2
          have hmarks := length_follow settings turtle order
          have hyield : table.yieldOf symbol = order.vertexYield := by
            simp only [Interpretation.yieldOf, horder]
          simp only [trail, vainLoads, horder, List.length_append, hyield]
          omega

/-- The line of a word, with the vertices that its returns in vain leave out, has one
vertex more than its symbols promise. -/
theorem size_draw (settings : TurtleSettings) (table : Interpretation)
    {word : Word} {counts : List Nat} (hlength : word.length = counts.length) :
    ∃ stream, Turtle.draw settings table word counts = .ok stream ∧
      stream.size + 3 * (atStart settings).vainLoads settings table word =
        1 + (word.map table.yieldOf).sum := by
  obtain ⟨line, hdraw, hline⟩ := draw_shows settings table hlength
  have htrail := length_trail settings table (atStart settings) word
  refine ⟨line, hdraw, ?_⟩
  rw [hline.size_eq, marks, List.length_cons]
  omega

end Turtle

end LineGrammar
