/-
The texts that are read as colors: six or eight hexadecimal digits, after at most one number
sign.  A plus sign is let through in place of the first digit of a channel, since each channel is
read as a number of its own.  No other text is a color, and none with a character beyond ASCII,
so that reading by byte offsets finds the same colors.
-/
import Mathlib.Tactic.IntervalCases
import LineGrammar.Color

namespace LineGrammar

namespace Hexadecimal

/-- A digit stands for its place among the sixteen digits, of either case. -/
def Stands (char : Char) (value : Nat) : Prop :=
  "0123456789abcdef".toList[value]? = some char ∨ "0123456789ABCDEF".toList[value]? = some char

instance (char : Char) (value : Nat) : Decidable (Stands char value) :=
  inferInstanceAs (Decidable (_ ∨ _))

theorem Stands.lt {char : Char} {value : Nat} (h : Stands char value) : value < 16 := by
  rcases h with h | h
  · exact (List.getElem?_eq_some_iff.mp h).1
  · exact (List.getElem?_eq_some_iff.mp h).1

theorem lt_of_value? {char : Char} {value : Nat} (h : value? char = some value) :
    char.toNat < 103 := by
  simp only [value?, Char.le_def, UInt32.le_iff_toNat_le] at h
  change char.val.toNat < 103
  split at h
  · next hrange => exact lt_of_le_of_lt hrange.2 (by decide)
  · split at h
    · next hrange => exact lt_of_le_of_lt hrange.2 (by decide)
    · split at h
      · next hrange => exact lt_of_le_of_lt hrange.2 (by decide)
      · cases h

theorem stands_of_value?_ofNat :
    ∀ code < 103, ∀ value ∈ value? (Char.ofNat code), Stands (Char.ofNat code) value := by
  decide +kernel

theorem value?_eq_some_iff {char : Char} {value : Nat} :
    value? char = some value ↔ Stands char value := by
  constructor
  · intro h
    rw [← Char.ofNat_toNat char] at h ⊢
    exact stands_of_value?_ofNat char.toNat (by simpa using lt_of_value? h) value h
  · intro h
    have hlt := h.lt
    rcases h with h | h <;> interval_cases value <;> rw [← Option.some_inj.mp h] <;> rfl

theorem stands_digit {value : Nat} (h : value < 16) : Stands (digit value) value :=
  value?_eq_some_iff.mp (value?_digit value h)

/-- No sign is a digit. -/
theorem not_stands_plus (value : Nat) : ¬ Stands '+' value := by
  rw [← value?_eq_some_iff]
  exact (by decide : value? '+' = none) ▸ nofun

theorem not_stands_hash (value : Nat) : ¬ Stands '#' value := by
  rw [← value?_eq_some_iff]
  exact (by decide : value? '#' = none) ▸ nofun

end Hexadecimal

namespace Color

/-- Two digits spell a channel. -/
inductive Pair : Char → Char → UInt8 → Prop where
  | digits {high low : Char} {upper lower : Nat} (hhigh : Hexadecimal.Stands high upper)
      (hlow : Hexadecimal.Stands low lower) : Pair high low (UInt8.ofNat (16 * upper + lower))

/-- What two characters are read as: a plus sign may stand in place of the first digit. -/
inductive Lenient : Char → Char → UInt8 → Prop where
  | pair {high low : Char} {channel : UInt8} (h : Pair high low channel) :
      Lenient high low channel
  | signed {low : Char} {lower : Nat} (hlow : Hexadecimal.Stands low lower) :
      Lenient '+' low (UInt8.ofNat lower)

/-- Three channels spell an opaque color, four any color. -/
inductive Digits (channel : Char → Char → UInt8 → Prop) : List Char → Color → Prop where
  | six {r₁ r₂ g₁ g₂ b₁ b₂ : Char} {red green blue : UInt8} (hred : channel r₁ r₂ red)
      (hgreen : channel g₁ g₂ green) (hblue : channel b₁ b₂ blue) :
      Digits channel [r₁, r₂, g₁, g₂, b₁, b₂] (solid red green blue)
  | eight {r₁ r₂ g₁ g₂ b₁ b₂ a₁ a₂ : Char} {red green blue alpha : UInt8}
      (hred : channel r₁ r₂ red) (hgreen : channel g₁ g₂ green) (hblue : channel b₁ b₂ blue)
      (halpha : channel a₁ a₂ alpha) :
      Digits channel [r₁, r₂, g₁, g₂, b₁, b₂, a₁, a₂] ⟨red, green, blue, alpha⟩

/-- At most one number sign precedes the digits. -/
inductive Spells (channel : Char → Char → UInt8 → Prop) (text : String) (color : Color) :
    Prop where
  | bare (h : Digits channel text.toList color)
  | marked {digits : List Char} (htext : text.toList = '#' :: digits)
      (h : Digits channel digits color)

theorem channel?_eq_some_iff {high low : Char} {channel : UInt8} :
    channel? high low = some channel ↔ Lenient high low channel := by
  constructor
  · intro h
    unfold channel? at h
    split at h
    · next hplus =>
        rw [Option.bind_eq_bind, Option.bind_some] at h
        obtain ⟨lower, hlower, hchannel⟩ := Option.bind_eq_some_iff.mp h
        rw [hplus, ← Option.some_inj.mp hchannel, Nat.mul_zero, Nat.zero_add]
        exact .signed (Hexadecimal.value?_eq_some_iff.mp hlower)
    · obtain ⟨upper, hupper, hrest⟩ := Option.bind_eq_some_iff.mp h
      obtain ⟨lower, hlower, hchannel⟩ := Option.bind_eq_some_iff.mp hrest
      rw [← Option.some_inj.mp hchannel]
      exact .pair (.digits (Hexadecimal.value?_eq_some_iff.mp hupper)
        (Hexadecimal.value?_eq_some_iff.mp hlower))
  · intro h
    cases h with
    | pair h =>
        obtain ⟨hhigh, hlow⟩ := h
        have hplus : high ≠ '+' := by
          rintro rfl
          exact Hexadecimal.not_stands_plus _ hhigh
        rw [channel?, if_neg hplus, Hexadecimal.value?_eq_some_iff.mpr hhigh,
          Hexadecimal.value?_eq_some_iff.mpr hlow]
        rfl
    | signed hlow =>
        rw [channel?, if_pos rfl, Hexadecimal.value?_eq_some_iff.mpr hlow]
        simp

theorem ofDigits?_eq_some_iff {digits : List Char} {color : Color} :
    ofDigits? digits = some color ↔ Digits Lenient digits color := by
  constructor
  · intro h
    unfold ofDigits? at h
    split at h
    · simp only [bind, Option.bind_eq_some_iff, pure, Option.some_inj] at h
      obtain ⟨red, hred, green, hgreen, blue, hblue, rfl⟩ := h
      exact .six (channel?_eq_some_iff.mp hred) (channel?_eq_some_iff.mp hgreen)
        (channel?_eq_some_iff.mp hblue)
    · simp only [bind, Option.bind_eq_some_iff, pure, Option.some_inj] at h
      obtain ⟨red, hred, green, hgreen, blue, hblue, alpha, halpha, rfl⟩ := h
      exact .eight (channel?_eq_some_iff.mp hred) (channel?_eq_some_iff.mp hgreen)
        (channel?_eq_some_iff.mp hblue) (channel?_eq_some_iff.mp halpha)
    · cases h
  · intro h
    cases h with
    | six hred hgreen hblue =>
        rw [ofDigits?, channel?_eq_some_iff.mpr hred, channel?_eq_some_iff.mpr hgreen,
          channel?_eq_some_iff.mpr hblue]
        rfl
    | eight hred hgreen hblue halpha =>
        rw [ofDigits?, channel?_eq_some_iff.mpr hred, channel?_eq_some_iff.mpr hgreen,
          channel?_eq_some_iff.mpr hblue, channel?_eq_some_iff.mpr halpha]
        rfl

/-- What is read as a channel starts with no number sign, and so do the digits of a color. -/
theorem Lenient.ne_hash {high low : Char} {channel : UInt8} (h : Lenient high low channel) :
    high ≠ '#' := by
  rintro rfl
  cases h with
  | pair h =>
      obtain ⟨hhigh, -⟩ := h
      exact Hexadecimal.not_stands_hash _ hhigh

theorem Digits.head?_ne_hash {digits : List Char} {color : Color}
    (h : Digits Lenient digits color) : digits.head? ≠ some '#' := by
  cases h with
  | six hred hgreen hblue => exact fun hhead => hred.ne_hash (Option.some_inj.mp hhead)
  | eight hred hgreen hblue halpha => exact fun hhead => hred.ne_hash (Option.some_inj.mp hhead)

theorem ofHex?_eq_some_iff {text : String} {color : Color} :
    ofHex? text = some color ↔ Spells Lenient text color := by
  unfold ofHex?
  split
  · next digits htext =>
      rw [ofDigits?_eq_some_iff]
      constructor
      · exact .marked htext
      · rintro (h | ⟨hmarked, h⟩)
        · exact absurd (congrArg List.head? htext) h.head?_ne_hash
        · rw [htext] at hmarked
          exact (List.cons.inj hmarked).2 ▸ h
  · next hbare =>
      rw [ofDigits?_eq_some_iff]
      constructor
      · exact .bare
      · rintro (h | ⟨hmarked, h⟩)
        · exact h
        · exact absurd hmarked (hbare _)

/-- What holds of both characters of a channel holds of all digits of a color. -/
theorem Digits.forall_mem {channel : Char → Char → UInt8 → Prop} {p : Char → Prop}
    {digits : List Char} {color : Color} (h : Digits channel digits color)
    (hp : ∀ high low byte, channel high low byte → p high ∧ p low) :
    ∀ char ∈ digits, p char := by
  cases h with
  | six hred hgreen hblue => simp [hp _ _ _ hred, hp _ _ _ hgreen, hp _ _ _ hblue]
  | eight hred hgreen hblue halpha =>
      simp [hp _ _ _ hred, hp _ _ _ hgreen, hp _ _ _ hblue, hp _ _ _ halpha]

/-- Where no channel of one kind is read otherwise, no color is. -/
theorem Digits.imp {p q : Char → Char → UInt8 → Prop} {digits : List Char} {color : Color}
    (h : Digits p digits color)
    (himp : ∀ high ∈ digits, ∀ low channel, p high low channel → q high low channel) :
    Digits q digits color := by
  cases h with
  | six hred hgreen hblue =>
      exact .six (himp _ (by simp) _ _ hred) (himp _ (by simp) _ _ hgreen)
        (himp _ (by simp) _ _ hblue)
  | eight hred hgreen hblue halpha =>
      exact .eight (himp _ (by simp) _ _ hred) (himp _ (by simp) _ _ hgreen)
        (himp _ (by simp) _ _ hblue) (himp _ (by simp) _ _ halpha)

theorem Spells.imp {p q : Char → Char → UInt8 → Prop} {text : String} {color : Color}
    (h : Spells p text color)
    (himp : ∀ high ∈ text.toList, ∀ low channel, p high low channel → q high low channel) :
    Spells q text color := by
  cases h with
  | bare h => exact .bare (h.imp himp)
  | marked htext h =>
      exact .marked htext (h.imp fun high hhigh => himp high (htext ▸ List.mem_cons_of_mem _ hhigh))

/-- What is spelled by digits is read. -/
theorem Spells.lenient {text : String} {color : Color} (h : Spells Pair text color) :
    Spells Lenient text color :=
  h.imp fun _ _ _ _ => .pair

/-- Without a plus sign only digits are read. -/
theorem Spells.pair {text : String} {color : Color} (h : Spells Lenient text color)
    (hplus : '+' ∉ text.toList) : Spells Pair text color := by
  refine h.imp fun high hhigh low channel hchannel => ?_
  cases hchannel with
  | pair h => exact h
  | signed hlow => exact absurd hhigh hplus

theorem Pair.ne_plus {high low : Char} {channel : UInt8} (h : Pair high low channel) :
    '+' ≠ high ∧ '+' ≠ low := by
  obtain ⟨hhigh, hlow⟩ := h
  exact ⟨fun hplus => Hexadecimal.not_stands_plus _ (hplus ▸ hhigh),
    fun hplus => Hexadecimal.not_stands_plus _ (hplus ▸ hlow)⟩

theorem Digits.not_mem_plus {digits : List Char} {color : Color} (h : Digits Pair digits color) :
    '+' ∉ digits :=
  fun hplus => h.forall_mem (fun _ _ _ hchannel => hchannel.ne_plus) '+' hplus rfl

theorem Spells.not_mem_plus {text : String} {color : Color} (h : Spells Pair text color) :
    '+' ∉ text.toList := by
  cases h with
  | bare h => exact h.not_mem_plus
  | marked htext h => simp [htext, h.not_mem_plus]

/-- The two digits of a byte spell it. -/
theorem exists_pair (channel : UInt8) :
    ∃ high low, Hexadecimal.digits 2 channel.toNat = [high, low] ∧ Pair high low channel := by
  refine ⟨_, _, rfl, ?_⟩
  have hlt := channel.toNat_lt
  have hpair := Pair.digits (Hexadecimal.stands_digit (Nat.mod_lt (channel.toNat / 16) (by omega)))
    (Hexadecimal.stands_digit (Nat.mod_lt channel.toNat (by omega)))
  rwa [show 16 * (channel.toNat / 16 % 16) + channel.toNat % 16 = channel.toNat by omega,
    UInt8.ofNat_toNat] at hpair

/-- The digits of a color spell it, and the first six of them its opaque one. -/
theorem digits_toHex (color : Color) :
    Digits Pair color.toHex.toList color ∧
      Digits Pair (color.toHex.toList.take 6) (solid color.red color.green color.blue) := by
  obtain ⟨r₁, r₂, hred, hred'⟩ := exists_pair color.red
  obtain ⟨g₁, g₂, hgreen, hgreen'⟩ := exists_pair color.green
  obtain ⟨b₁, b₂, hblue, hblue'⟩ := exists_pair color.blue
  obtain ⟨a₁, a₂, halpha, halpha'⟩ := exists_pair color.alpha
  have hdigits : color.toHex.toList = [r₁, r₂, g₁, g₂, b₁, b₂, a₁, a₂] := by
    rw [toHex, String.toList_ofList]
    simp only [List.flatMap_cons, List.flatMap_nil, hred, hgreen, hblue, halpha]
    rfl
  rw [hdigits]
  exact ⟨.eight hred' hgreen' hblue' halpha', .six hred' hgreen' hblue'⟩

/-- What is left of a text past a number of bytes, if a character ends there. -/
def skip? : Nat → List Char → Option (List Char)
  | 0, text => some text
  | _ + 1, [] => none
  | bytes + 1, char :: rest =>
      if char.utf8Size ≤ bytes + 1 then skip? (bytes + 1 - char.utf8Size) rest else none

/-- The first bytes of a text, if a character ends after them. -/
def first? : Nat → List Char → Option (List Char)
  | 0, _ => some []
  | _ + 1, [] => none
  | bytes + 1, char :: rest =>
      if char.utf8Size ≤ bytes + 1 then
        (first? (bytes + 1 - char.utf8Size) rest).map (char :: ·)
      else none

/-- The byte that a text stands for: digits, at least one, after at most one plus sign. -/
def byte? (text : List Char) : Option UInt8 :=
  let digits := match text with
    | '+' :: digits => digits
    | digits => digits
  if digits = [] then none
  else
    let number? := digits.foldlM (fun number digit => do
      let number := 16 * number + (← Hexadecimal.value? digit)
      if number < 256 then some number else none) 0
    number?.map UInt8.ofNat

def channelAt? (digits : List Char) (offset : Nat) : Option UInt8 := do
  byte? (← first? 2 (← skip? offset digits))

/-- The color of ASCII digits, by the bytes at the offsets of its channels. -/
def ofBytes? (digits : List Char) : Option Color :=
  if digits.all fun char => char.toNat < 128 then
    match (digits.map Char.utf8Size).sum with
    | 6 => do
        return solid (← channelAt? digits 0) (← channelAt? digits 2) (← channelAt? digits 4)
    | 8 => do
        return ⟨← channelAt? digits 0, ← channelAt? digits 2, ← channelAt? digits 4,
          ← channelAt? digits 6⟩
    | _ => none
  else none

/-- Read a color by byte offsets after at most one number sign. -/
def bytewise? (text : String) : Option Color :=
  match text.toList with
  | '#' :: digits => ofBytes? digits
  | digits => ofBytes? digits

/-- Two characters stand for a byte as they are read as a channel: two digits never overflow. -/
theorem byte?_pair (high low : Char) : byte? [high, low] = channel? high low := by
  have hfits {char : Char} {value : Nat} (h : Hexadecimal.value? char = some value) :
      value < 16 := (Hexadecimal.value?_eq_some_iff.mp h).lt
  unfold byte? channel?
  split
  · next digits hdigits =>
      obtain ⟨rfl, rfl⟩ := List.cons.inj hdigits
      cases hlow : Hexadecimal.value? low with
      | none => simp [hlow]
      | some lower =>
          have hlt := hfits hlow
          simp [hlow, show lower < 256 by omega]
  · next digits hplus =>
      have hhigh : high ≠ '+' := fun hhigh => hplus [low] (hhigh ▸ rfl)
      cases hupper : Hexadecimal.value? high with
      | none => simp [hhigh, hupper]
      | some upper =>
          cases hlow : Hexadecimal.value? low with
          | none => simp [hhigh, hupper, hlow]
          | some lower =>
              have hlt := hfits hupper
              have hlt' := hfits hlow
              simp [hhigh, hupper, hlow, show upper < 256 by omega,
                show 16 * upper + lower < 256 by omega]

/-- In ASCII text bytes are characters. -/
theorem skip?_eq_some {digits : List Char} (hsize : ∀ char ∈ digits, char.utf8Size = 1)
    {offset : Nat} (hoffset : offset ≤ digits.length) :
    skip? offset digits = some (digits.drop offset) := by
  induction digits generalizing offset with
  | nil =>
      obtain rfl := Nat.le_zero.mp hoffset
      rfl
  | cons char rest ih =>
      cases offset with
      | zero => rfl
      | succ offset =>
          rw [skip?, hsize char List.mem_cons_self, if_pos (by omega), Nat.add_sub_cancel,
            ih (fun other hother => hsize other (List.mem_cons_of_mem _ hother))
              (Nat.le_of_succ_le_succ hoffset), List.drop_succ_cons]

theorem channelAt?_eq {digits : List Char} (hsize : ∀ char ∈ digits, char.utf8Size = 1)
    {offset : Nat} {high low : Char} {rest : List Char}
    (hdrop : digits.drop offset = high :: low :: rest) :
    channelAt? digits offset = channel? high low := by
  have hlength := congrArg List.length hdrop
  rw [List.length_drop, List.length_cons, List.length_cons] at hlength
  have hmem {char : Char} (h : char ∈ high :: low :: rest) : char.utf8Size = 1 :=
    hsize char (List.mem_of_mem_drop (hdrop ▸ h))
  have hhigh : high.utf8Size = 1 := hmem (by simp)
  have hlow : low.utf8Size = 1 := hmem (by simp)
  rw [channelAt?, skip?_eq_some hsize (by omega), hdrop]
  simp [first?, hhigh, hlow, byte?_pair]

theorem Lenient.ascii {high low : Char} {channel : UInt8} (h : Lenient high low channel) :
    high.toNat < 128 ∧ low.toNat < 128 := by
  have hascii {char : Char} {value : Nat} (h : Hexadecimal.Stands char value) :
      char.toNat < 128 :=
    Nat.lt_trans (Hexadecimal.lt_of_value? (Hexadecimal.value?_eq_some_iff.mpr h)) (by decide)
  cases h with
  | pair h =>
      obtain ⟨hhigh, hlow⟩ := h
      exact ⟨hascii hhigh, hascii hlow⟩
  | signed hlow => exact ⟨by decide, hascii hlow⟩

/-- Every byte offset of the digits of a color starts a character. -/
theorem ofBytes?_eq_ofDigits? (digits : List Char) : ofBytes? digits = ofDigits? digits := by
  by_cases hascii : ∀ char ∈ digits, char.toNat < 128
  · have hsize : ∀ char ∈ digits, char.utf8Size = 1 := by
      intro char hchar
      rw [Char.utf8Size_eq_one_iff, UInt32.le_iff_toNat_le]
      exact Nat.le_of_lt_succ (hascii char hchar)
    have hsum : (digits.map Char.utf8Size).sum = digits.length := by
      rw [List.map_congr_left hsize, List.map_const', List.sum_replicate_nat, Nat.mul_one]
    rw [ofBytes?, if_pos (by simpa using hascii), hsum]
    split
    · next hsix =>
        match digits, hsix with
        | [r₁, r₂, g₁, g₂, b₁, b₂], _ =>
          rw [channelAt?_eq hsize rfl, channelAt?_eq hsize rfl, channelAt?_eq hsize rfl, ofDigits?]
    · next height =>
        match digits, height with
        | [r₁, r₂, g₁, g₂, b₁, b₂, a₁, a₂], _ =>
          rw [channelAt?_eq hsize rfl, channelAt?_eq hsize rfl, channelAt?_eq hsize rfl,
            channelAt?_eq hsize rfl, ofDigits?]
    · next hsix height => exact (ofDigits?_eq_none_of_length hsix height).symm
  · rw [ofBytes?, if_neg (by simpa using hascii)]
    cases hcolor : ofDigits? digits with
    | none => rfl
    | some color => exact absurd ((ofDigits?_eq_some_iff.mp hcolor).forall_mem
        fun _ _ _ hchannel => hchannel.ascii) hascii

theorem bytewise?_eq_ofHex? (text : String) : bytewise? text = ofHex? text := by
  have hsame : ofBytes? = ofDigits? := funext ofBytes?_eq_ofDigits?
  rw [bytewise?, hsame]
  rfl

/-- Exactly the digits are read, unless there is a plus sign in what is read. -/
theorem forall_ofHex?_iff (text : String) :
    (∀ color, ofHex? text = some color ↔ Spells Pair text color) ↔
      ('+' ∈ text.toList → ofHex? text = none) := by
  constructor
  · intro hdigits hplus
    cases hcolor : ofHex? text with
    | none => rfl
    | some color => exact absurd hplus ((hdigits color).mp hcolor).not_mem_plus
  · intro hnone color
    constructor
    · intro hcolor
      refine (ofHex?_eq_some_iff.mp hcolor).pair fun hplus => ?_
      rw [hnone hplus] at hcolor
      cases hcolor
    · exact fun h => ofHex?_eq_some_iff.mpr h.lenient

/-- Texts and the colors they are read as.  Text is read as a color exactly if it spells it after
at most one number sign, with six or eight characters, two for a channel: two digits, or one
digit after a plus sign.  All that consists of digits is read, and nothing else is unless there
is a plus sign in it.  Reading by byte offsets makes no difference.  Each color is read back from
its digits, and the opaque one from the first six of them. -/
theorem ofHex?_spelled (text : String) (color : Color) :
    (ofHex? text = some color ↔ Spells Lenient text color) ∧
    (Spells Pair text color → ofHex? text = some color) ∧
    ((∀ color, ofHex? text = some color ↔ Spells Pair text color) ↔
      ('+' ∈ text.toList → ofHex? text = none)) ∧
    bytewise? text = ofHex? text ∧
    ∀ mark ∈ ["", "#"],
      ofHex? (mark ++ color.toHex) = some color ∧
      ofHex? (mark ++ String.ofList (color.toHex.toList.take 6)) =
        some (solid color.red color.green color.blue) := by
  have hread {text : String} {color : Color} (h : Spells Pair text color) :
      ofHex? text = some color :=
    ofHex?_eq_some_iff.mpr h.lenient
  refine ⟨ofHex?_eq_some_iff, hread, forall_ofHex?_iff text, bytewise?_eq_ofHex? text,
    fun mark hmark => ?_⟩
  obtain ⟨height, hsix⟩ := digits_toHex color
  rw [← String.toList_ofList (l := color.toHex.toList.take 6)] at hsix
  rcases (by simpa using hmark : mark = "" ∨ mark = "#") with rfl | rfl
  · rw [String.empty_append, String.empty_append]
    exact ⟨hread (.bare height), hread (.bare hsix)⟩
  · have hmarked (text : String) : ("#" ++ text).toList = '#' :: text.toList :=
      String.toList_append
    exact ⟨hread (.marked (hmarked _) height), hread (.marked (hmarked _) hsix)⟩

/-- Text without a plus sign in digits of either case. -/
theorem ofHex?_spelled_mixed :
    '+' ∉ "#fF8000".toList ∧ Spells Pair "#fF8000" (solid 255 128 0) := by
  have hplus : '+' ∉ "#fF8000".toList := by decide
  obtain ⟨-, -, hexact, -⟩ := ofHex?_spelled "#fF8000" (solid 255 128 0)
  have hdigits := hexact.mpr fun habsurd => absurd habsurd hplus
  exact ⟨hplus, (hdigits _).mp (by decide +kernel)⟩

/-- A plus sign in a channel is not refused, though it is no digit. -/
theorem ofHex?_signed :
    ofHex? "#+f8000" = some (solid 15 128 0) ∧ ∀ color, ¬ Spells Pair "#+f8000" color := by
  have hplus : '+' ∈ "#+f8000".toList := by decide
  exact ⟨by decide +kernel, fun _ h => h.not_mem_plus hplus⟩

end Color

end LineGrammar
