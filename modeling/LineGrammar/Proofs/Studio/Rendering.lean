/-
What a rendering does.  Once the limits let the prediction pass, nothing can go wrong any
more: the counts fit the word, the lists of the line fit each other, and the painter takes
them.  So a rendering fails as the limits do and otherwise not.  If it fails, nothing has
happened; if not, all that is new in the studio is what its system remembers.
-/
import LineGrammar.Proofs.Painter.Repainting
import LineGrammar.Proofs.Studio.Guard
import LineGrammar.Proofs.Turtle.Trail
import LineGrammar.Random

namespace LineGrammar

/-- The reasons to refuse a prediction, each with its fault. -/
inductive Limits.Refuses (limits : Limits) (iterations : Nat) (estimate : Estimate) :
    StudioFault → Prop
  | overflow (h : estimate.overflow = true) :
      Refuses limits iterations estimate (.overflow iterations)
  | symbols (h : limits.maxSymbols < estimate.symbols) :
      Refuses limits iterations estimate
        (.tooLarge .symbols estimate.symbols limits.maxSymbols iterations)
  | vertices (h : limits.maxVertices < estimate.vertices) :
      Refuses limits iterations estimate
        (.tooLarge .vertices estimate.vertices limits.maxVertices iterations)

theorem Limits.refuses_of_check {limits : Limits} {iterations : Nat} {estimate : Estimate}
    {fault : StudioFault} (h : limits.check iterations estimate = .error fault) :
    limits.Refuses iterations estimate fault := by
  unfold check at h
  split at h
  next hoverflow =>
      cases h
      exact .overflow hoverflow
  next =>
      split at h
      next hsymbols =>
          cases h
          exact .symbols hsymbols
      next =>
          split at h
          next hvertices =>
              cases h
              exact .vertices hvertices
          next => cases h

namespace LSystem

theorem Reachable.produce {system : LSystem} (h : system.Reachable) (depth : Nat) :
    (system.produce depth).2.Reachable := by
  obtain ⟨start, rules, flags, operations, rfl⟩ := h
  refine ⟨start, rules, flags, operations ++ [.produce depth], ?_⟩
  rw [run, run, List.foldl_append]
  rfl

end LSystem

namespace Studio

variable {studio : Studio} {tools : Painter.Tools}

theorem refuses_of_checkSize {fault : StudioFault} (h : studio.checkSize = .error fault) :
    ∃ estimate, studio.estimate = .ok estimate ∧
      studio.limits.Refuses studio.iterations estimate fault := by
  obtain ⟨estimate, -, hestimate, hcheck⟩ := studio.exists_estimate
  rw [hcheck] at h
  exact ⟨estimate, hestimate, Limits.refuses_of_check h⟩

theorem render_eq_ok_iff {chance : Painter.Path → Draws} {drawing : Drawing} {after : Studio} :
    studio.render tools chance = .ok (drawing, after) ↔
      studio.attempt tools chance = (.ok drawing, after) := by
  unfold render
  split <;> simp_all

theorem render_eq_error_iff {chance : Painter.Path → Draws} {fault : StudioFault} :
    studio.render tools chance = .error fault ↔ (studio.attempt tools chance).1 = .error fault := by
  unfold render
  split <;> simp_all

theorem attempt_of_checkSize_eq_error {fault : StudioFault}
    (h : studio.checkSize = .error fault) (tools : Painter.Tools) (chance : Painter.Path → Draws) :
    studio.attempt tools chance = (.error fault, studio) := by
  rw [attempt, h]

def IsLine (studio : Studio) (line : Stream) : Prop :=
  let derivation := (studio.system.produce studio.iterations).1
  Turtle.draw studio.settings studio.table derivation.word derivation.counts = .ok line

/-- Behind the limits the line is drawn and painted, whatever the painter is. -/
theorem attempt_of_checkSize_eq_ok (hsystem : studio.system.Faithful) {estimate : Estimate}
    (h : studio.checkSize = .ok estimate) (tools : Painter.Tools)
    (chance : Painter.Path → Draws) :
    ∃ line stream, studio.IsLine line ∧
      (studio.ready tools chance).paintStream tools.search line = .ok stream ∧
      line.Recolored stream ∧
      studio.attempt tools chance = (.ok ⟨stream, line.box, estimate, studio.iterations⟩,
        { studio with system := (studio.system.produce studio.iterations).2 }) := by
  have hlength : (studio.system.produce studio.iterations).1.word.length =
      (studio.system.produce studio.iterations).1.counts.length := by
    rw [hsystem.produce_fst]
    exact (studio.system.grammar.length_counts_levelAt studio.iterations).symm
  obtain ⟨line, hdraw, hline⟩ := Turtle.draw_shows studio.settings studio.table hlength
  obtain ⟨stream, hpaint, hstream⟩ := (studio.ready tools chance).exists_paintWithin
    tools.search line.box hline.size_depths_eq hline.size_bridges_eq
  refine ⟨line, stream, hdraw, hpaint, hstream, ?_⟩
  have hword : studio.paintWord tools chance (studio.system.produce studio.iterations).1 =
      .ok (stream, line.box) := by
    rw [paintWord, hdraw]
    simp only [Except.mapError, bind, Except.bind, hpaint]
    rfl
  rw [attempt, h]
  simp only [hword]
  rfl

/-- A line behind the limits has no more vertices than they allow. -/
theorem IsLine.size_le {line : Stream} (hline : studio.IsLine line)
    (hsystem : studio.system.Faithful) {estimate : Estimate}
    (h : studio.checkSize = .ok estimate) : line.size ≤ studio.limits.maxVertices := by
  obtain ⟨hestimate, hclear, -, hvertices⟩ := checkSize_eq_ok h
  obtain ⟨predicted, hpredicted, hexact⟩ :=
    studio.system.grammar.estimate_exact studio.table studio.iterations
  rw [hestimate, Except.ok.injEq] at hpredicted
  subst hpredicted
  obtain ⟨drawn, hdrawn, hsize⟩ :=
    hsystem.size_draw studio.settings studio.table studio.iterations
  rw [hline, Except.ok.injEq] at hdrawn
  have hword : (studio.system.produce studio.iterations).1.word =
      studio.system.grammar.wordAt studio.iterations := by
    rw [hsystem.produce_fst]
    rfl
  have hpromised := (hexact hclear).2
  rw [← hdrawn, hword] at hsize
  omega

/-- A rendering fails exactly if the limits refuse the prediction, with their fault, which
is never one of the prediction, the walk or the painting.  Then the studio is as before.
Otherwise nothing but the tables of its system has changed, and the drawing is the painted
line of the word at the depth at hand, both within the limits. -/
theorem render_atomic (hsystem : studio.system.Reachable) (tools : Painter.Tools)
    (chance : Painter.Path → Draws) :
    (∀ fault, studio.render tools chance = .error fault ↔ studio.checkSize = .error fault) ∧
      (∀ fault, studio.render tools chance = .error fault →
        studio.attempt tools chance = (.error fault, studio) ∧
        (∀ core, fault ≠ .core core) ∧
        ∃ estimate, studio.estimate = .ok estimate ∧
          studio.limits.Refuses studio.iterations estimate fault) ∧
      ∀ drawing after, studio.render tools chance = .ok (drawing, after) →
        studio.attempt tools chance = (.ok drawing, after) ∧
        studio.checkSize = .ok drawing.estimate ∧
        (∃ words levels, after = { studio with system := { studio.system with words, levels } }) ∧
        after.system.Reachable ∧
        drawing.stream.size ≤ studio.limits.maxVertices ∧
        (studio.system.produce studio.iterations).1.word.length ≤ studio.limits.maxSymbols ∧
        ∃ line, studio.IsLine line ∧ drawing.box = line.box ∧
          (studio.ready tools chance).paintStream tools.search line = .ok drawing.stream := by
  cases hcheck : studio.checkSize with
  | error refusal =>
      have hattempt := attempt_of_checkSize_eq_error hcheck tools chance
      have hrender : studio.render tools chance = .error refusal := by
        rw [render_eq_error_iff, hattempt]
      rw [hrender]
      refine ⟨fun fault => ?_, ?_, ?_⟩
      · simp
      · rintro fault hfault
        cases hfault
        obtain ⟨estimate, hestimate, hrefuses⟩ := refuses_of_checkSize hcheck
        refine ⟨hattempt, ?_, estimate, hestimate, hrefuses⟩
        rintro core rfl
        cases hrefuses
      · rintro drawing after hdrawing
        cases hdrawing
  | ok estimate =>
      have hfaithful := hsystem.faithful
      obtain ⟨line, stream, hline, hpaint, hrecolored, hattempt⟩ :=
        attempt_of_checkSize_eq_ok hfaithful hcheck tools chance
      have hrender := render_eq_ok_iff.mpr hattempt
      rw [hrender]
      refine ⟨fun fault => ?_, ?_, ?_⟩
      · simp
      · rintro fault hfault
        cases hfault
      · rintro drawing after hdrawing
        cases hdrawing
        obtain ⟨words, levels, htables⟩ := studio.system.produce_snd_eq studio.iterations
        refine ⟨hattempt, rfl, ⟨words, levels, by rw [htables]⟩, hsystem.produce _, ?_, ?_,
          line, hline, rfl, hpaint⟩
        · rw [hrecolored.size_eq]
          exact hline.size_le hfaithful hcheck
        · rw [hfaithful.produce_fst]
          exact length_wordAt_iterations_le hcheck

/-- A branching line in random colors, of which two steps are within the limits. -/
def sprouting (iterations : Nat) : Studio where
  system := (LSystem.ofRules ['F'] [('F', ['F', '[', 'F', ']'])] ['F']).run [.produce 1]
  table := .default
  settings := .default
  iterations
  painter := .leaf (.blockRandom 2 none) .default
  limits := { maxVertices := 14, maxSymbols := 10, logDirectory := "logs" }

theorem reachable_sprouting (iterations : Nat) : (sprouting iterations).system.Reachable :=
  ⟨_, _, _, _, rfl⟩

theorem checkSize_sprouting : (sprouting 2).checkSize = .ok ⟨10, 14, false⟩ := by
  decide +kernel

/-- Two steps give a drawing of at most fourteen vertices, and a third one is refused for
its twenty-two symbols. -/
theorem render_atomic_of_sprouting :
    (sprouting 2).system.Reachable ∧ (sprouting 3).system.Reachable ∧
      (∃ drawing after,
        (sprouting 2).render .standard (fun _ => Random.draws 0) = .ok (drawing, after) ∧
        drawing.estimate = ⟨10, 14, false⟩ ∧ drawing.stream.size ≤ 14 ∧
        ∃ words levels,
          after = { sprouting 2 with system := { (sprouting 2).system with words, levels } }) ∧
      (sprouting 3).attempt .standard (fun _ => Random.draws 0) =
        (.error (.tooLarge .symbols 22 10 3), sprouting 3) := by
  have hbeyond : (sprouting 3).checkSize = .error (.tooLarge .symbols 22 10 3) := by
    decide +kernel
  obtain ⟨hfails, -, hdrawn⟩ :=
    render_atomic (reachable_sprouting 2) .standard (fun _ => Random.draws 0)
  obtain ⟨hrefused, hkept, -⟩ :=
    render_atomic (reachable_sprouting 3) .standard (fun _ => Random.draws 0)
  refine ⟨reachable_sprouting 2, reachable_sprouting 3, ?_,
    (hkept _ ((hrefused _).mpr hbeyond)).1⟩
  cases hrender : (sprouting 2).render .standard fun _ => Random.draws 0 with
  | error fault =>
      have hfault := (hfails fault).mp hrender
      rw [checkSize_sprouting] at hfault
      cases hfault
  | ok result =>
      obtain ⟨drawing, after⟩ := result
      obtain ⟨-, hestimate, htables, -, hsize, -⟩ := hdrawn drawing after hrender
      rw [checkSize_sprouting, Except.ok.injEq] at hestimate
      exact ⟨drawing, after, rfl, hestimate.symm, hsize, htables⟩

end Studio

end LineGrammar
