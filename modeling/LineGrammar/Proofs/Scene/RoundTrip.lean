/-
Scenes that are written and read again.  A scene without anything that is not a number comes
back equal, provided that its gradients have come about by the changes that there are and
none has a key at a negative zero.  Palettes are not written; they come back because they
are those of the keys.
-/
import LineGrammar.Proofs.Scene.Records
import LineGrammar.Scene.Codec

namespace LineGrammar

theorem Point.ofValue_toValue (point : Point) : Point.ofValue point.toValue = .ok point := by
  simp [Point.ofValue, Point.toValue, Reader.pair, Reader.single_widen, bind, Except.bind, pure,
    Except.pure]

namespace Painter

/-- Put a field into the draft of a painter, whatever it holds. -/
def putNode (name : String) (value : Value) (draft : Draft) : Except SceneFault Draft :=
  match name with
  | "main" => do pure { draft with main := some (← read true value) }
  | "children" => do pure { draft with children := some (← readList value) }
  | _ => putField name value draft

theorem putNode_of_ne {name : String} {value : Value} {draft : Draft} (hmain : name ≠ "main")
    (hchildren : name ≠ "children") : putNode name value draft = putField name value draft := by
  unfold putNode
  split
  · exact absurd rfl hmain
  · exact absurd rfl hchildren
  · rfl

/-- The entries of a painter are read as those of any record, but for its tag. -/
theorem readEntry_eq {names : List String} {reading : Reading Draft} {entry : Value × Value}
    (h : ¬ Tagged.isTag entry = true) :
    readEntry names entry reading = Reading.entry names putNode reading entry := by
  obtain ⟨key, value⟩ := entry
  rw [Bool.not_eq_true] at h
  simp only [readEntry, Reading.entry, h, Bool.false_eq_true, ↓reduceIte]
  refine bind_congr fun named => ?_
  cases named with
  | none => rfl
  | some name =>
      refine bind_congr fun reading => ?_
      -- Only the two fields that hold painters are read in the recursion itself.
      split
      · simp only [putNode, bind_assoc, pure_bind]
      · simp only [putNode, bind_assoc, pure_bind]
      · next hmain hchildren => rw [putNode_of_ne hmain hchildren]

theorem readEntries_eq {names : List String} {entries : List (Value × Value)}
    (reading : Reading Draft) (h : ∀ entry ∈ entries, ¬ Tagged.isTag entry = true) :
    readEntries names entries reading = entries.foldlM (Reading.entry names putNode) reading := by
  induction entries generalizing reading with
  | nil => rfl
  | cons entry rest ih =>
      rw [List.forall_mem_cons] at h
      rw [readEntries, readEntry_eq h.1, List.foldlM_cons]
      exact bind_congr fun reading => ih reading h.2

theorem tag_not_mem_fieldNames (kind : Kind) : Tagged.tag ∉ kind.fieldNames := by
  cases kind <;> decide

/-- A painter is read by its tag and by putting its fields into a draft. -/
theorem read_record {name : String} {kind : Kind} {fields : List (String × Value)} (nested : Bool)
    (hkind : kinds.lookup name = some kind) (hnames : ∀ field ∈ fields, field.1 ∈ kind.fieldNames)
    (hfields : (fields.map (·.1)).Nodup) :
    read nested (Tagged.record name fields) =
      (fields.foldlM (fun draft field => putNode field.1 field.2 draft) .empty >>= fun draft =>
        assemble kind ⟨draft, false⟩) := by
  have htags : ∀ field ∈ fields, field.1 ≠ Tagged.tag := fun field hfield heq =>
    tag_not_mem_fieldNames kind (heq ▸ hnames field hfield)
  have hread := @Reading.foldlM_entry Draft kind.fieldNames putNode fields ⟨[], .empty⟩ hnames
    hfields fun _ _ => List.not_mem_nil
  have htag : Tagged.isTag (Value.text Tagged.tag, Value.text name) = true := by
    simp [Tagged.isTag]
  have hskip : readEntry kind.fieldNames (.text Tagged.tag, .text name) ⟨[], .empty⟩ =
      .ok ⟨[], .empty⟩ := by
    rw [readEntry, htag]
    rfl
  have hentries : readEntries kind.fieldNames ((.text Tagged.tag, .text name) ::
      fields.map fun field => (Value.text field.1, field.2)) ⟨[], .empty⟩ =
        (fields.map fun field => (Value.text field.1, field.2)).foldlM
          (Reading.entry kind.fieldNames putNode) ⟨[], .empty⟩ := by
    rw [readEntries, hskip, ← readEntries_eq _ (Tagged.not_isTag htags)]
    rfl
  rw [← hread, Tagged.record, Value.record, List.map_cons, read,
    Tagged.filter_isTag (.text name) htags]
  simp only [Tagged.kindOf, hkind, Reader.ofOption, bind, Except.bind, hentries]
  cases (fields.map fun field => (Value.text field.1, field.2)).foldlM
    (Reading.entry kind.fieldNames putNode) ⟨[], .empty⟩ <;> rfl

end Painter

/-- Whether a shade can be kept in a document: it is made of numbers, and its blocks can be
counted. -/
inductive Shade.Storable : Shade (Option UInt64) → Prop
  | constant : Storable .constant
  | linear {angle : Float32} {center : Point} (hangle : ¬ angle.isNaN) (hx : ¬ center.x.isNaN)
      (hy : ¬ center.y.isNaN) : Storable (.linear angle center)
  | radial {center : Point} (hx : ¬ center.x.isNaN) (hy : ¬ center.y.isNaN) :
      Storable (.radial center)
  | sequential {factor : Float32} (hfactor : ¬ factor.isNaN) : Storable (.sequential factor)
  | iteration : Storable .iteration
  | blockRandom {size : Nat} (seed : Option UInt64) (hsize : size < UInt64.size) :
      Storable (.blockRandom size seed)

namespace Painter

/-- Whether a tree of painters can be kept in a document. -/
inductive Storable : PainterPlan → Prop
  | leaf {shade : Shade (Option UInt64)} {generator : Generator} (hshade : shade.Storable)
      (hgenerator : generator.Storable) : Storable (.leaf shade generator)
  | composite {main : PainterPlan} {children : List PainterPlan} (hmain : Storable main)
      (hchildren : ∀ child ∈ children, Storable child) : Storable (.composite main children)

theorem readSeed_toValue (seed : Option UInt64) :
    readSeed ((seed.map fun seed => Value.nat seed.toNat).getD .null) = .ok seed := by
  cases seed with
  | none => rfl
  | some seed =>
      have hcount : Reader.count (.nat seed.toNat) = .ok seed.toNat :=
        Reader.natBelow_nat seed.toNat_lt
      simp [readSeed, hcount, bind, Except.bind, pure, Except.pure]

theorem readAll_allToValues {children : List PainterPlan}
    (h : ∀ child ∈ children, read true child.toValue = .ok child) :
    readAll (allToValues children) = .ok children := by
  induction children with
  | nil => rfl
  | cons child rest ih =>
      rw [List.forall_mem_cons] at h
      rw [allToValues, readAll, h.1, ih h.2]
      rfl

theorem read_leaf {shade : Shade (Option UInt64)} {generator : Generator}
    (hshade : shade.Storable) (hgenerator : generator.Storable) (nested : Bool) :
    read nested (toValue (.leaf shade generator)) = .ok (.leaf shade generator) := by
  have hread := Generator.ofValue_toValue hgenerator true
  have hcount : ∀ size, size < UInt64.size → Reader.count (.nat size) = .ok size :=
    fun size hsize => Reader.natBelow_nat hsize
  cases hshade <;>
    rw [toValue, read_record nested rfl (by simp [Kind.fieldNames]) (by simp)] <;>
    simp [putNode, putField, assemble, Drafted.require, Draft.empty, readSeed_toValue,
      Point.ofValue_toValue, Reader.single_widen, bind, Except.bind, pure, Except.pure, *]

/-- A tree of painters comes back as it was. -/
theorem read_toValue {painter : PainterPlan} (h : painter.Storable) (nested : Bool) :
    read nested painter.toValue = .ok painter := by
  induction h generalizing nested with
  | leaf hshade hgenerator => exact read_leaf hshade hgenerator nested
  | @composite main children hmain hchildren ihMain ihChildren =>
      have hlist : readList (.seq (allToValues children)) = .ok children := by
        rw [readList]
        exact readAll_allToValues fun child hchild => ihChildren child hchild true
      rw [toValue, read_record nested rfl (by simp [Kind.fieldNames]) (by simp)]
      simp [putNode, assemble, Drafted.require, Draft.empty, ihMain true, hlist, bind, Except.bind,
        pure, Except.pure]

end Painter

namespace RuleTable

theorem ofValue_toValue {V : Type} {read : Reader V} {write : V → Value}
    (h : ∀ value, read (write value) = .ok value) (table : RuleTable V) :
    RuleTable.ofValue read (table.toValue write) = .ok table := by
  have hentries : (table.entries.map fun entry =>
      (Value.text entry.1.toString, write entry.2)).mapM (fun entry : Value × Value => do
        return (← Reader.symbol entry.1, ← read entry.2)) = .ok table.entries := by
    refine Reader.mapM_map_eq_ok fun entry _ => ?_
    simp [Reader.symbol, Reader.text, h, bind, Except.bind, pure, Except.pure]
  have hrecord : table.toValue write = .map (table.entries.map fun entry =>
      (Value.text entry.1.toString, write entry.2)) := by
    simp [RuleTable.toValue, Value.record]
  have hresult := congrArg (Except.map RuleTable.ofList) hentries
  rw [Except.map, ofList_entries] at hresult
  rw [hrecord]
  exact hresult

end RuleTable

theorem Order.ofValue_name (order : Order) : Order.ofValue (.text order.name) = .ok order :=
  congrArg Reader.ofOption (ofName?_name order)

theorem Interpretation.ofValue_toValue (table : Interpretation) :
    Interpretation.ofValue (RuleTable.toValue (fun order : Order => .text order.name) table) =
      .ok (some table) := by
  have hread := RuleTable.ofValue_toValue Order.ofValue_name table
  change (do return some (← RuleTable.ofValue Order.ofValue
    (RuleTable.toValue (fun order : Order => .text order.name) table))) = _
  rw [hread]
  rfl

theorem Parameters.ofValue_toValue (parameters : Parameters)
    (hiterations : parameters.iterations < UInt64.size) :
    Parameters.ofValue parameters.toValue = .ok parameters := by
  have hcount : Reader.count (.nat parameters.iterations) = .ok parameters.iterations :=
    Reader.natBelow_nat hiterations
  simp only [Parameters.ofValue, Parameters.toValue]
  rw [readRecord_record _ (by simp [fieldNames]) (by simp)]
  simp [putField, Reader.pair, Reader.double, hcount, bind, Except.bind, pure, Except.pure,
    Except.map]

namespace Scene

/-- Whether a scene can be kept in a document without loss. -/
structure Storable (scene : Scene) : Prop where
  iterations : scene.parameters.iterations < UInt64.size
  startX : ¬ scene.parameters.startX.isNaN
  startY : ¬ scene.parameters.startY.isNaN
  startAngle : ¬ scene.parameters.startAngle.isNaN
  turnAngle : ¬ scene.parameters.turnAngle.isNaN
  step : ¬ scene.parameters.step.isNaN
  painter : scene.painter.Storable

/-- Reading a scene that has been written gives the scene, whether or not it brings a table of
its own. -/
theorem ofValue_toValue {scene : Scene} (h : scene.Storable) :
    Scene.ofValue scene.toValue = .ok scene := by
  have htext : ∀ text, Reader.text (.text text) = .ok text := fun _ => rfl
  have hrules := RuleTable.ofValue_toValue htext scene.rules
  have hparameters := scene.parameters.ofValue_toValue h.iterations
  have hpainter : Painter.ofValue scene.painter.toValue = .ok scene.painter :=
    Painter.read_toValue h.painter false
  have hnull : Interpretation.ofValue .null = .ok none := rfl
  obtain ⟨name, start, rules, flagged, interpretation, parameters, painter⟩ := scene
  simp only [Scene.ofValue, Scene.toValue]
  rw [readRecord_record _ (by simp [fieldNames]) (by simp)]
  cases interpretation <;>
    simp_all [putField, Draft.empty, Drafted.require, Interpretation.ofValue_toValue, bind,
      Except.bind, pure, Except.pure, Except.map]

end Scene

theorem Generator.Storable.beq_self {generator : Generator} (h : generator.Storable) :
    (generator == generator) = true := by
  cases h with
  | constant color => exact beq_self_eq_true color
  | @linear gradient h hnumbers =>
      change (gradient == gradient) = true
      rw [LinearGradient.beq_eq_keys_beq, LinearGradient.keys_beq_eq, Bool.and_eq_true, beq_iff_eq]
      refine ⟨rfl, ?_⟩
      have hnumber : ∀ position ∈ gradient.positions, ¬ position.isNaN :=
        fun position hposition => (hnumbers position hposition).1
      exact (LinearGradient.positions_beq_iff hnumber hnumber).mpr rfl
  | @discrete gradient h => exact beq_self_eq_true gradient

theorem Point.beq_self {point : Point} (hx : ¬ point.x.isNaN) (hy : ¬ point.y.isNaN) :
    (point == point) = true :=
  Bool.and_eq_true_iff.mpr ⟨Single.beq_self hx, Single.beq_self hy⟩

theorem Shade.Storable.beq_self {shade : Shade (Option UInt64)} (h : shade.Storable) :
    (shade == shade) = true := by
  cases h with
  | constant => rfl
  | linear hangle hx hy =>
      exact Bool.and_eq_true_iff.mpr ⟨Single.beq_self hangle, Point.beq_self hx hy⟩
  | radial hx hy => exact Point.beq_self hx hy
  | sequential hfactor => exact Single.beq_self hfactor
  | iteration => rfl
  | @blockRandom size seed hsize =>
      exact Bool.and_eq_true_iff.mpr ⟨beq_self_eq_true size, beq_self_eq_true seed⟩

namespace Painter

theorem sameAll_self {children : List PainterPlan}
    (h : ∀ child ∈ children, child.same child = true) : sameAll children children = true := by
  induction children with
  | nil => rfl
  | cons child rest ih =>
      rw [List.forall_mem_cons] at h
      rw [sameAll, h.1, ih h.2, Bool.and_self]

theorem Storable.same_self {painter : PainterPlan} (h : painter.Storable) :
    painter.same painter = true := by
  induction h with
  | leaf hshade hgenerator =>
      rw [same, hshade.beq_self, hgenerator.beq_self, Bool.and_self]
  | composite hmain hchildren ihMain ihChildren =>
      rw [same, ihMain, sameAll_self ihChildren, Bool.and_self]

end Painter

namespace Scene

theorem Storable.beq_self {scene : Scene} (h : scene.Storable) : (scene == scene) = true := by
  have hparameters : (scene.parameters == scene.parameters) = true := by
    obtain ⟨name, start, rules, flagged, interpretation, parameters, painter⟩ := scene
    obtain ⟨startX, startY, startAngle, turnAngle, step, iterations⟩ := parameters
    change (startX == startX && (startY == startY && (startAngle == startAngle &&
      (turnAngle == turnAngle && (step == step && iterations == iterations))))) = true
    rw [Double.beq_self h.startX, Double.beq_self h.startY, Double.beq_self h.startAngle,
      Double.beq_self h.turnAngle, Double.beq_self h.step, beq_self_eq_true]
    rfl
  have hpainter : (scene.painter == scene.painter) = true := h.painter.same_self
  change (scene.name == scene.name && scene.start == scene.start && scene.rules == scene.rules
    && scene.flagged == scene.flagged && scene.interpretation == scene.interpretation
    && scene.parameters == scene.parameters && scene.painter == scene.painter) = true
  simp only [hparameters, hpainter, beq_self_eq_true, Bool.and_self]

/-- A scene that is written and read again is the same and equal to itself as a program
compares it, palettes and absent fields included. -/
theorem read_written {scene : Scene} (h : scene.Storable) :
    ∃ back, Scene.ofValue scene.toValue = .ok back ∧ back = scene ∧ (back == scene) = true :=
  ⟨scene, ofValue_toValue h, rfl, h.beq_self⟩

/-- The colors of leaves in autumn, with a key between the ends. -/
def autumn : LinearGradient :=
  (LinearGradient.between (.solid 90 140 30) (.solid 200 60 20)).perform
    (.addKey (.solid 230 180 40) 0.5)

/-- Keys of three colors, two of them at the same place. -/
def rings : List DiscreteKey :=
  [⟨.black, 3⟩, ⟨.solid 90 60 30, 0⟩, ⟨.white, 0⟩]

def bark : DiscreteGradient :=
  (DiscreteGradient.ofKeys rings).toOption.getD (.withKeys rings)

/-- A scene with a table of its own, whose painter is a tree. -/
def orchard : Scene where
  name := "orchard"
  start := "X"
  rules := .ofList [('X', "F[+X]-X"), ('F', "FF")]
  flagged := "X"
  interpretation := some .default
  parameters := ⟨0, -1.5, 90, 25, 10, 5⟩
  painter := .composite (.leaf (.blockRandom 4 (some 7)) (.constant .white))
    [.composite (.leaf (.linear 0.5 ⟨0.5, -0.0⟩) (.linear autumn))
      [.leaf .iteration (.discrete bark), .leaf (.blockRandom 9 none) (.linear autumn)],
    .leaf (.sequential 2) (.constant .transparent)]

theorem storable_autumn : Generator.Storable (.linear autumn) := by
  refine .linear (.perform _ (fun _ _ => trivial) (.between _ _)) ?_
  decide +kernel

theorem storable_bark : Generator.Storable (.discrete bark) := by
  have hbark : (DiscreteGradient.ofKeys rings).toOption = some bark := by decide +kernel
  cases h : DiscreteGradient.ofKeys rings with
  | error fault =>
      rw [h] at hbark
      cases hbark
  | ok gradient =>
      rw [h] at hbark
      obtain rfl := Option.some.inj hbark
      exact .discrete (.ofKeys h)

theorem storable_orchard : orchard.Storable where
  iterations := by decide
  startX := by decide +kernel
  startY := by decide +kernel
  startAngle := by decide +kernel
  turnAngle := by decide +kernel
  step := by decide +kernel
  painter := by
    refine .composite (.leaf (.blockRandom _ (by decide)) (.constant _)) ?_
    rw [List.forall_mem_cons, List.forall_mem_singleton]
    refine ⟨.composite (.leaf (.linear ?_ ?_ ?_) storable_autumn) ?_,
      .leaf (.sequential ?_) (.constant _)⟩
    · decide +kernel
    · decide +kernel
    · decide +kernel
    · rw [List.forall_mem_cons, List.forall_mem_singleton]
      exact ⟨.leaf .iteration storable_bark,
        .leaf (.blockRandom _ (by decide)) storable_autumn⟩
    · decide +kernel

/-- The tree of painters comes back with both gradients. -/
theorem read_written_orchard :
    orchard.Storable ∧
      ∃ back, Scene.ofValue orchard.toValue = .ok back ∧ back = orchard ∧
        (back == orchard) = true :=
  ⟨storable_orchard, read_written storable_orchard⟩

end Scene

end LineGrammar
