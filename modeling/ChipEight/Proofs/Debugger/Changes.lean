import ChipEight.Proofs.Debugger.Refusals
import ChipEight.Proofs.Machine.Loading
import ChipEight.Proofs.Machine.Registers
import ChipEight.Proofs.Text.Numbers

/-!
# What a change of an attribute changes

The debugger changes an attribute to the value of a text. Numbers have the range of their
attribute; switches and fonts have a grammar of their own. Whatever the attribute is, a change that
is not refused puts this value in its place and leaves everything else alone, and the attribute is
shown with the value after it.

Two kinds of attribute have a part of the machine that follows them: the screen has to be drawn in
new colours, and the glyphs of new fonts are in memory.
-/

namespace ChipEight.Debugger

open Text

/-! ## Values -/

/-- What an attribute can be changed to. -/
inductive Value
  | number (n : Nat)
  | switches (q : Switches)
  | smallFont (f : SmallFont)
  | bigFont (f : BigFont)
  deriving DecidableEq

/-- The largest number that an attribute can hold, if it holds a number. -/
def Attribute.largest? : Attribute → Option Nat
  | .programCounter => some maxAddress
  | .index => some 0xFFFF
  | .stackDepth => some 16
  | .delayTimer | .soundTimer | .register _ | .flag _ | .memory _ => some 0xFF
  | .background | .foreground => some maxColour
  | .switches | .smallFont | .bigFont | .awaiting | .stack | .registers | .flags => none

/-- The value of a text for an attribute. -/
def Attribute.value? (s : List Char) : Attribute → Option Value
  | .switches => (Switches.parse s).toOption.map .switches
  | .smallFont => (Fonts.parse s).toOption.map fun fonts => .smallFont fonts.small
  | .bigFont => (Fonts.parse (',' :: s)).toOption.map fun fonts => .bigFont fonts.big
  | a => (a.largest?.bind fun largest => numberUpTo? largest s).map .number

/-- A machine that differs from another one in nothing but an attribute, which holds a value, and
what follows the attribute. -/
inductive Sets (m : Machine) : Attribute → Value → Machine → Prop
  | programCounter {pc : UInt16} {n : Nat} (h : pc.toNat = n) :
    Sets m .programCounter (.number n) { m with pc }
  | index {index : UInt16} {n : Nat} (h : index.toNat = n) :
    Sets m .index (.number n) { m with index }
  | stackDepth {depth : Fin 17} {n : Nat} (h : depth.val = n) :
    Sets m .stackDepth (.number n) { m with depth }
  | delayTimer {delay : UInt8} {n : Nat} (h : delay.toNat = n) :
    Sets m .delayTimer (.number n) { m with delay }
  | soundTimer {sound : UInt8} {n : Nat} (h : sound.toNat = n) :
    Sets m .soundTimer (.number n) { m with sound }
  | register {x : Fin 16} {v : Vector UInt8 16} {n : Nat} (h : (v.get x).toNat = n)
    (hothers : ∀ y, y ≠ x → v.get y = m.v.get y) : Sets m (.register x) (.number n) { m with v }
  | flag {x : Fin 8} {flags : Vector UInt8 8} {n : Nat} (h : (flags.get x).toNat = n)
    (hothers : ∀ y, y ≠ x → flags.get y = m.flags.get y) :
    Sets m (.flag x) (.number n) { m with flags }
  | memory {a : UInt16} {ram : Ram} {n : Nat} (h : (ram.read a).toNat = n)
    (hothers : ∀ c, Ram.cell c ≠ Ram.cell a → ram.read c = m.ram.read c) :
    Sets m (.memory a) (.number n) { m with ram }
  | background {background : UInt32} {n : Nat} (h : background.toNat = n) :
    Sets m .background (.number n)
      { m with palette := { m.palette with background }, redraw := true }
  | foreground {foreground : UInt32} {n : Nat} (h : foreground.toNat = n) :
    Sets m .foreground (.number n)
      { m with palette := { m.palette with foreground }, redraw := true }
  | switches (switches : Switches) : Sets m .switches (.switches switches) { m with switches }
  | smallFont {small : SmallFont} {ram : Ram}
    (h : ram.toList = small.glyphs ++ (m.fonts.big.glyphs ++ m.ram.toList.drop 240)) :
    Sets m .smallFont (.smallFont small) { m with ram, fonts := { m.fonts with small } }
  | bigFont {big : BigFont} {ram : Ram}
    (h : ram.toList = m.fonts.small.glyphs ++ (big.glyphs ++ m.ram.toList.drop 240)) :
    Sets m .bigFont (.bigFont big) { m with ram, fonts := { m.fonts with big } }

/-- What comes of a change: the attribute is set to the value of the text, or there is no such value
and the change is refused. -/
inductive SetOrRefused (m : Machine) (a : Attribute) : Option Value → Except SetFlaw Machine → Prop
  | accepted {value : Value} {next : Machine} (h : Sets m a value next) :
    SetOrRefused m a (some value) (.ok next)
  | refused (flaw : SetFlaw) : SetOrRefused m a none (.error flaw)

variable {m next : Machine} {a : Attribute} {s : List Char} {value : Value}

/-! ## Changes -/

theorem Attribute.value?_of_largest? {largest : Nat} (h : a.largest? = some largest) :
    a.value? s = (numberUpTo? largest s).map .number := by
  cases a <;> cases h <;> rfl

/-- A change to a number is as it should be if it sets the attribute for all numbers in range. -/
theorem setOrRefused_of_largest? {largest : Nat} {f : Nat → Machine}
    (ha : a.largest? = some largest) (hchange : a.change m s = (valueUpTo largest s).map f)
    (hsets : ∀ n ≤ largest, Sets m a (.number n) (f n)) :
    SetOrRefused m a (a.value? s) (a.change m s) := by
  rw [hchange, valueUpTo, Attribute.value?_of_largest? ha]
  cases hnumber : numberUpTo? largest s with
  | none => exact .refused _
  | some n =>
    obtain ⟨-, hn⟩ := Option.filter_eq_some_iff.mp hnumber
    exact .accepted (hsets n (of_decide_eq_true hn))

theorem toNat_word {n : Nat} (h : n ≤ 0xFFFF) : (UInt16.ofNat n).toNat = n :=
  UInt16.toNat_ofNat_of_lt' (Nat.lt_succ_of_le h)

theorem toNat_byte {n : Nat} (h : n ≤ 0xFF) : (UInt8.ofNat n).toNat = n :=
  UInt8.toNat_ofNat_of_lt' (Nat.lt_succ_of_le h)

theorem toNat_colour {n : Nat} (h : n ≤ maxColour) : (UInt32.ofNat n).toNat = n :=
  UInt32.toNat_ofNat_of_lt' (Nat.lt_of_le_of_lt h (by decide))

/-- A change sets the attribute to the value of the text if there is one. -/
theorem setOrRefused (m : Machine) (s : List Char) (a : Attribute) :
    SetOrRefused m a (a.value? s) (a.change m s) := by
  cases a with
  | programCounter =>
    exact setOrRefused_of_largest? rfl rfl fun n hn =>
      .programCounter (toNat_word (Nat.le_trans hn (by decide)))
  | index => exact setOrRefused_of_largest? rfl rfl fun n hn => .index (toNat_word hn)
  | stackDepth =>
    exact setOrRefused_of_largest? rfl rfl fun n hn => .stackDepth (Nat.min_eq_left hn)
  | delayTimer => exact setOrRefused_of_largest? rfl rfl fun n hn => .delayTimer (toNat_byte hn)
  | soundTimer => exact setOrRefused_of_largest? rfl rfl fun n hn => .soundTimer (toNat_byte hn)
  | register x =>
    refine setOrRefused_of_largest? rfl rfl fun n hn => .register ?_ fun y hy => ?_
    · rw [Machine.get_set, if_pos rfl, toNat_byte hn]
    · rw [Machine.get_set, if_neg hy]
  | flag x =>
    refine setOrRefused_of_largest? rfl rfl fun n hn => .flag ?_ fun y hy => ?_
    · rw [Machine.get_set, if_pos rfl, toNat_byte hn]
    · rw [Machine.get_set, if_neg hy]
  | memory c =>
    refine setOrRefused_of_largest? rfl rfl fun n hn => .memory ?_ fun other hother => ?_
    · rw [m.ram.read_write_same, toNat_byte hn]
    · exact m.ram.read_write_of_ne _ hother.symm
  | background => exact setOrRefused_of_largest? rfl rfl fun n hn => .background (toNat_colour hn)
  | foreground => exact setOrRefused_of_largest? rfl rfl fun n hn => .foreground (toNat_colour hn)
  | switches =>
    rw [Attribute.change, Attribute.value?]
    cases Switches.parse s with
    | error failure => exact .refused _
    | ok chosen => exact .accepted (.switches chosen)
  | smallFont =>
    rw [Attribute.change, Attribute.value?]
    cases Fonts.parse s with
    | error failure => exact .refused _
    | ok fonts =>
      exact .accepted (.smallFont (m.ram.toList_withFonts { m.fonts with small := fonts.small }))
  | bigFont =>
    rw [Attribute.change, Attribute.value?]
    cases Fonts.parse (',' :: s) with
    | error failure => exact .refused _
    | ok fonts =>
      exact .accepted (.bigFont (m.ram.toList_withFonts { m.fonts with big := fonts.big }))
  | awaiting | stack | registers | flags => exact .refused .fixed

/-! ## Showing the value -/

/-- What stands before the value where an attribute is shown. -/
def Attribute.label : Attribute → String
  | .programCounter => "PC: "
  | .stackDepth => "SP: "
  | .delayTimer => "DT: "
  | .soundTimer => "ST: "
  | .index => "I:  "
  | .awaiting => "VK: "
  | .background => "BG: "
  | .foreground => "FG: "
  | .switches => "Quirks: "
  | .smallFont => "SFONT: "
  | .bigFont => "BFONT: "
  | .register x => s!"V{hexText 1 x.val}: "
  | .flag x => s!"R{hexText 1 x.val}: "
  | .memory a => s!"${hexText 3 a.toNat}: "
  | .registers | .flags | .stack => ""

/-- How many digits a number of an attribute has at least where it is shown. -/
def Attribute.width : Attribute → Nat
  | .programCounter | .index => 3
  | .background | .foreground => 6
  | _ => 2

/-- The text of a value. -/
def Value.text (width : Nat) : Value → String
  | number n => hexText width n
  | switches q => switchesText q
  | smallFont f => f.name
  | bigFont f => f.name

/-- A text shows an attribute with a value: the label, the value and the end of the line. A byte of
memory is shown as the first one of a word and its instruction. -/
def Attribute.Shows (a : Attribute) (value : Value) (text : String) : Prop :=
  ∃ rest, text = a.label ++ value.text a.width ++ rest ∧ ((∀ c, a ≠ .memory c) → rest = "\n")

/-- A word is shown as its two bytes. -/
theorem hexText_word (ram : Ram) (c : UInt16) :
    hexText 4 (ram.word c).toNat =
      hexText 2 (ram.read c).toNat ++ hexText 2 (ram.read (c + 1)).toNat := by
  rw [Ram.word, toNat_joinBytes, hexText, hex_bytes _ (ram.read (c + 1)).toNat_lt,
    String.ofList_append]
  rfl

/-- An attribute that was set is shown with its value. -/
theorem Sets.shows (h : Sets m a value next) : a.Shows value (a.shown next) := by
  cases h with
  | @memory c ram n h =>
    obtain rfl := h
    have hshown : Attribute.shown { m with ram } (.memory c) =
        (Attribute.memory c).label ++ hexText 4 (ram.word c).toNat ++ "\t" ++
          disassemble (ram.word c) ++ "\n" := rfl
    refine ⟨hexText 2 (ram.read (c + 1)).toNat ++ "\t" ++ disassemble (ram.word c) ++ "\n", ?_,
      fun hother => absurd rfl (hother c)⟩
    rw [hshown, hexText_word]
    simp only [String.append_assoc]
    rfl
  | programCounter h | index h | stackDepth h | delayTimer h | soundTimer h | register h | flag h
  | background h | foreground h =>
    obtain rfl := h
    exact ⟨"\n", rfl, fun _ => rfl⟩
  | switches | smallFont | bigFont => exact ⟨"\n", rfl, fun _ => rfl⟩

/-! ## Setting and printing -/

/-- The debugger accepts the texts that have a value for an attribute. The value is in its place
afterwards, everything else is as it was but for what follows the attribute, and the attribute is
printed with this value, which changes nothing. -/
theorem set_then_print (m : Machine) (folder : Folder) (a : Attribute) (s : List Char) :
    (((Command.set a s).perform m folder).written = "" ↔ (a.value? s).isSome) ∧
    ∀ value, a.value? s = some value → ∃ next text, Sets m a value next ∧
      (Command.set a s).perform m folder = { machine := next, folder } ∧
      a.Shows value text ∧
      (Command.print a).perform next folder = { machine := next, folder, written := text } := by
  rw [Command.perform]
  have hchange := setOrRefused m s a
  generalize a.value? s = given at hchange ⊢
  generalize a.change m s = result at hchange ⊢
  cases hchange with
  | refused flaw =>
    refine ⟨⟨fun h => absurd h (append_lineFeed_ne_empty _), fun h => ?_⟩, fun value h => ?_⟩
    · cases h
    · cases h
  | @accepted given next hsets =>
    refine ⟨⟨fun _ => rfl, fun _ => rfl⟩, fun value hvalue => ?_⟩
    obtain rfl := Option.some.inj hvalue
    exact ⟨next, a.shown next, hsets, rfl, hsets.shows, rfl⟩

/-- The other small font, for a machine that has written over a glyph of the first. -/
theorem set_then_print_font :
    let m : Machine := { ram := (Ram.ofFonts {}).write 0x010 0xAA }
    let name := ['V', 'I', 'P']
    ∃ next, Sets m .smallFont (.smallFont ⟨"vip"⟩) next ∧
      (Command.set .smallFont name).perform m {} = { machine := next, folder := {} } ∧
      Attribute.shown next .smallFont = "SFONT: vip\n" := by
  intro m name
  have hvalue : Attribute.value? name .smallFont = some (.smallFont ⟨"vip"⟩) := by decide +kernel
  obtain ⟨next, text, hsets, hset, ⟨rest, htext, hrest⟩, hprint⟩ :=
    (set_then_print m {} .smallFont name).2 _ hvalue
  have hshown : Attribute.shown next .smallFont = text := congrArg Reply.written hprint
  rw [htext, hrest fun _ => nofun] at hshown
  exact ⟨next, hsets, hset, hshown⟩

end ChipEight.Debugger
