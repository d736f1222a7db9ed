/-
Painting a drawing anew.  However often and in whatever way a drawing was painted over, it
still has the box and the places of the line it was made from.  With a seeded painter the
next painting is therefore the one that a rendering makes, as long as the line is the same.
-/
import LineGrammar.Proofs.Studio.Rendering

namespace LineGrammar

/-- The drawings that come of one by painting it anew, again and again, in any studio. -/
inductive Drawing.Repainted (first : Drawing) : Drawing → Prop
  | refl : Repainted first first
  | step {drawing next : Drawing} {studio : Studio} {tools : Painter.Tools}
      {chance : Painter.Path → Draws} (h : Repainted first drawing)
      (hnext : studio.repaint tools chance drawing = .ok next) :
      Repainted first next

namespace Studio

/-- Only the stream of a drawing is painted anew. -/
theorem repaint_eq_ok_iff {studio : Studio} {tools : Painter.Tools}
    {chance : Painter.Path → Draws} {drawing next : Drawing} :
    studio.repaint tools chance drawing = .ok next ↔
      ∃ stream, (studio.ready tools chance).paintWithin tools.search drawing.box
        drawing.stream = .ok stream ∧ next = { drawing with stream } := by
  unfold repaint
  cases (studio.ready tools chance).paintWithin tools.search drawing.box drawing.stream with
  | error fault => simp [Except.mapError, bind, Except.bind]
  | ok stream => simp [Except.mapError, bind, Except.bind, pure, Except.pure, eq_comm]

end Studio

/-- However often a drawing is painted anew, nothing but colors changes. -/
theorem Drawing.Repainted.recolored {first drawing : Drawing} (h : first.Repainted drawing) :
    first.stream.Recolored drawing.stream ∧
      drawing = { first with stream := drawing.stream } := by
  induction h with
  | refl => exact ⟨.refl _, rfl⟩
  | step h hnext ih =>
      obtain ⟨hrecolored, hdrawing⟩ := ih
      obtain ⟨stream, hpaint, rfl⟩ := Studio.repaint_eq_ok_iff.mp hnext
      refine ⟨hrecolored.trans (Painter.recolored_of_paintWithin hpaint), ?_⟩
      rw [hdrawing]

namespace Studio

/-- Studios that differ at most in their painters and in what is remembered. -/
structure Alike (studio later : Studio) : Prop where
  grammar_eq : later.system.grammar = studio.system.grammar
  table_eq : later.table = studio.table
  settings_eq : later.settings = studio.settings
  iterations_eq : later.iterations = studio.iterations
  limits_eq : later.limits = studio.limits

namespace Alike

variable {studio later : Studio}

theorem checkSize_eq (h : studio.Alike later) : later.checkSize = studio.checkSize := by
  rw [checkSize, checkSize, estimate, estimate, h.grammar_eq, h.table_eq, h.iterations_eq,
    h.limits_eq]

theorem isLine_iff (h : studio.Alike later) (hstudio : studio.system.Faithful)
    (hlater : later.system.Faithful) (line : Stream) :
    later.IsLine line ↔ studio.IsLine line := by
  rw [IsLine, IsLine, hlater.produce_fst, hstudio.produce_fst, h.grammar_eq, h.table_eq,
    h.settings_eq, h.iterations_eq]

end Alike

/-- What a rendering leaves behind: the painted line, and the prediction that passed. -/
theorem exists_line_of_render {studio after : Studio} {tools : Painter.Tools}
    {chance : Painter.Path → Draws} {drawing : Drawing} (hsystem : studio.system.Faithful)
    (h : studio.render tools chance = .ok (drawing, after)) :
    ∃ line estimate, studio.IsLine line ∧ studio.checkSize = .ok estimate ∧
      line.Recolored drawing.stream ∧
      drawing = ⟨drawing.stream, line.box, estimate, studio.iterations⟩ := by
  have hattempt := render_eq_ok_iff.mp h
  cases hcheck : studio.checkSize with
  | error fault =>
      rw [attempt_of_checkSize_eq_error hcheck] at hattempt
      cases hattempt
  | ok estimate =>
      obtain ⟨line, stream, hline, -, hrecolored, hok⟩ :=
        attempt_of_checkSize_eq_ok hsystem hcheck tools chance
      rw [hok] at hattempt
      cases hattempt
      exact ⟨line, estimate, hline, rfl, hrecolored, rfl⟩

/-- Earlier colors leave no trace.  What a seeded painter makes of vertices depends on
their places and on the colors of bridges alone.  So painting a drawing anew, whatever was
painted over it before, gives the very drawing that a rendering with this painter makes. -/
theorem repaint_eq_render {plan : PainterPlan} (hplan : plan.Seeded) (tools : Painter.Tools) :
    (∀ chance chance' vertices others depths bridges maxDepth box,
      vertices.map Vertex.position = others.map Vertex.position →
      (∀ i : Nat, bridges[i]? = some true →
        vertices[i]?.map Vertex.color = others[i]?.map Vertex.color) →
      (plan.resolve tools.seeded chance).paintVertices tools.search vertices depths bridges
          maxDepth box =
        (plan.resolve tools.seeded chance').paintVertices tools.search others depths bridges
          maxDepth box) ∧
      ∀ (studio rendered later : Studio) (first drawing : Drawing) chance chance' chance'',
        studio.system.Reachable → studio.render tools chance = .ok (first, rendered) →
        first.Repainted drawing →
        later.system.Reachable → studio.Alike later → later.painter = plan →
        ∃ result after, later.render tools chance' = .ok (result, after) ∧
          later.repaint tools chance'' drawing = .ok result := by
  constructor
  · intro chance chance' vertices others depths bridges maxDepth box hpositions hcolors
    rw [hplan.resolve_eq tools.seeded chance chance']
    exact Painter.paintVertices_congr _ ⟨hpositions, hcolors⟩
  · intro studio rendered later first drawing chance chance' chance''
      hstudio hrender hrepainted hlater halike hpainter
    obtain ⟨line, estimate, hline, hcheck, hfirst, hdrawn⟩ :=
      exists_line_of_render hstudio.faithful hrender
    obtain ⟨hcolors, hdrawing⟩ := hrepainted.recolored
    have hrecolored : line.Recolored drawing.stream := hfirst.trans hcolors
    -- The later studio draws the same line, and paints it.
    have hcheckLater : later.checkSize = .ok estimate := halike.checkSize_eq.trans hcheck
    obtain ⟨line', stream, hline', hpaint, -, hattempt⟩ :=
      attempt_of_checkSize_eq_ok hlater.faithful hcheckLater tools chance'
    rw [halike.isLine_iff hstudio.faithful hlater.faithful] at hline'
    have hsame : line' = line := Except.ok.inj (hline'.symm.trans hline)
    subst hsame
    refine ⟨_, _, render_eq_ok_iff.mpr hattempt, ?_⟩
    rw [repaint_eq_ok_iff]
    have hbox : drawing.box = line'.box := by rw [hdrawing, hdrawn]
    refine ⟨stream, ?_, ?_⟩
    · rw [ready, hbox, Painter.paintWithin_congr _ _ hrecolored, hpainter,
        hplan.resolve_eq tools.seeded chance'' chance', ← hpainter]
      exact hpaint
    · rw [hdrawing, hdrawn, halike.iterations_eq]

/-- A seeded painter that mixes two colors at random. -/
def speckled : PainterPlan :=
  .composite (.leaf (.blockRandom 2 (some 7)) .default)
    [.leaf .iteration .default, .leaf .constant (.constant .white)]

theorem seeded_speckled : speckled.Seeded := by
  refine .composite (.leaf ?_) ?_
  · rintro size ⟨⟩
  · intro child hchild
    simp only [List.mem_cons, List.not_mem_nil, or_false] at hchild
    rcases hchild with rfl | rfl
    · refine .leaf ?_
      rintro size ⟨⟩
    · refine .leaf ?_
      rintro size ⟨⟩

theorem alike_sprouting (depth : Nat) (plan : PainterPlan) :
    (sprouting 2).Alike { sprouting 2 with
      system := ((sprouting 2).system.produce depth).2, painter := plan } :=
  ⟨LSystem.grammar_produce _ _, rfl, rfl, rfl, rfl⟩

/-- A branching line in random colors is painted white, and then speckled after more was
derived.  Neither the first colors nor the white show in the end. -/
theorem repaint_eq_render_of_speckled :
    let tools := Painter.Tools.standard
    let chance : Painter.Path → Draws := fun _ => Random.draws 0
    let chance' : Painter.Path → Draws := fun _ => Random.draws 1
    let plain : Studio := { sprouting 2 with painter := .leaf .constant (.constant .white) }
    let later : Studio := { sprouting 2 with
      system := ((sprouting 2).system.produce 3).2, painter := speckled }
    speckled.Seeded ∧
      (speckled.resolve tools.seeded chance).paintVertices tools.search
          #[⟨⟨0, 0⟩, .white⟩, ⟨⟨1, 0⟩, .transparent⟩, ⟨⟨0, 1⟩, .black⟩]
          #[0, 0, 1] #[false, true, false] 1 ⟨0, 0, 1, 1⟩ =
        (speckled.resolve tools.seeded chance').paintVertices tools.search
          #[⟨⟨0, 0⟩, .black⟩, ⟨⟨1, 0⟩, .transparent⟩, ⟨⟨0, 1⟩, .white⟩]
          #[0, 0, 1] #[false, true, false] 1 ⟨0, 0, 1, 1⟩ ∧
      ∃ first rendered drawing, (sprouting 2).render tools chance = .ok (first, rendered) ∧
        plain.repaint tools chance first = .ok drawing ∧
        ∃ result after, later.render tools chance = .ok (result, after) ∧
          later.repaint tools chance' drawing = .ok result := by
  intro tools chance chance' plain later
  have hstudio := reachable_sprouting 2
  obtain ⟨line, stream, -, -, -, hattempt⟩ :=
    attempt_of_checkSize_eq_ok hstudio.faithful checkSize_sprouting tools chance
  have hrender := render_eq_ok_iff.mpr hattempt
  have hplain : Painter.Seeded plain.painter := by
    refine .leaf ?_
    rintro size ⟨⟩
  obtain ⟨-, hwhite⟩ := repaint_eq_render hplain tools
  obtain ⟨drawing, -, -, hdrawing⟩ := hwhite (sprouting 2) _ plain _ _ chance chance chance
    hstudio hrender .refl hstudio ⟨rfl, rfl, rfl, rfl, rfl⟩ rfl
  obtain ⟨hforgets, hrepaints⟩ := repaint_eq_render seeded_speckled tools
  refine ⟨seeded_speckled, ?_, _, _, drawing, hrender, hdrawing, ?_⟩
  · apply hforgets
    · simp
    · intro i hi
      rcases i with _ | _ | _ | i
      · cases hi
      · rfl
      · cases hi
      · rfl
  · exact hrepaints (sprouting 2) _ later _ drawing chance chance chance' hstudio hrender
      (.step .refl hdrawing) (hstudio.produce 3) (alike_sprouting 3 speckled) rfl

end Studio

end LineGrammar
