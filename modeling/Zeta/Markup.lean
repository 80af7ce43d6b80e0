import Zeta.AppState
import Zeta.Escape
import Mathlib.Data.List.DropRight

/-!
# The markup of the feed

`appendMsg` in the page of `web.rs`: the markup it assigns to `innerHTML` for an entry of
the feed, as pieces of the template and pieces computed from the entry.  The texts of an
entry come from the network; `esc` escapes the characters that would be markup, and can
be undone (`unescape_esc`).

The initials in the avatar are the one piece computed from a text that does not go
through `esc`, so the first two characters of a sender's name are the only way for
markup to come from an entry (`noMarkup_iff`).
-/

namespace Zeta

/-- A string of JavaScript: its UTF-16 code units. -/
abbrev JsString := List UInt16

/-- The code units of a character. -/
def charUnits (c : Char) : JsString :=
  if c.toNat < 0x10000 then [UInt16.ofNat c.toNat]
  else
    [UInt16.ofNat (0xD800 + (c.toNat - 0x10000) / 0x400),
      UInt16.ofNat (0xDC00 + (c.toNat - 0x10000) % 0x400)]

/-- A string as JavaScript has it. -/
def utf16 (s : String) : JsString := s.toList.flatMap charUnits

/-- The code unit of an ASCII character. -/
def unit (c : Char) : UInt16 := UInt16.ofNat c.toNat

/-- `<`, `>` and `"`: what begins or ends a tag or an attribute. -/
def IsMark (u : UInt16) : Prop := u = unit '<' ∨ u = unit '>' ∨ u = unit '"'

instance (u : UInt16) : Decidable (IsMark u) := inferInstanceAs (Decidable (_ ∨ _ ∨ _))

/-! ## Escaping -/

/-- The replacements of `esc`, in their order. -/
def escRules : List (UInt16 × JsString) :=
  [(unit '&', utf16 "&amp;"), (unit '<', utf16 "&lt;"), (unit '>', utf16 "&gt;"),
    (unit '"', utf16 "&quot;")]

/-- `esc`. -/
def esc (s : JsString) : JsString := Escape.chain escRules s

/-- The four entities, decoded. -/
def unescape (s : JsString) : JsString := Escape.decode escRules s

theorem ordered_escRules : Escape.Ordered escRules := by decide +kernel

theorem readable_escRules : Escape.Readable escRules (unit '&') where
  begins := by decide +kernel
  escaped := by decide +kernel
  distinct := by decide +kernel

/-- **Decoding gives the text back.** -/
theorem unescape_esc (s : JsString) : unescape (esc s) = s :=
  Escape.decode_chain ordered_escRules readable_escRules s

/-- **An escaped text holds no markup.** -/
theorem not_isMark_of_esc {s : JsString} {u : UInt16} (hu : u ∈ esc s) : ¬ IsMark u := by
  have hgone : ∀ c, c ∈ escRules.map Prod.fst → (∀ r ∈ escRules, c ∉ r.2) → c ∉ esc s :=
    fun c hrule hentities => Escape.not_mem_chain ordered_escRules hrule hentities s
  rintro (rfl | rfl | rfl)
  · exact hgone (unit '<') (by decide +kernel) (by decide +kernel) hu
  · exact hgone (unit '>') (by decide +kernel) (by decide +kernel) hu
  · exact hgone (unit '"') (by decide +kernel) (by decide +kernel) hu

/-! ## The page -/

/-- What `appendMsg` uses of the browser.  Upper case moves no mark, and no locale writes a time
of day with one. -/
structure Browser where
  toUpperCase : JsString → JsString
  /-- `new Date(ts*1000).toLocaleTimeString(..)`. -/
  toLocaleTimeString : UInt64 → JsString
  /-- The number nearest to a sum. -/
  round : ℤ → ℤ
  mark_toUpperCase : ∀ s u, IsMark u → (u ∈ toUpperCase s ↔ u ∈ s)
  mark_toLocaleTimeString : ∀ ts u, IsMark u → u ∉ toLocaleTimeString ts

/-- `h << 5`, on 32 bits with a sign. -/
def shiftLeft5 (h : ℤ) : ℤ := Int.bmod (h * 32) (2 ^ 32)

/-- The white space of `String.prototype.trim`. -/
def isJsSpace (u : UInt16) : Bool :=
  let n := u.toNat
  (9 ≤ n && n ≤ 13) || n = 0x20 || n = 0xA0 || n = 0x1680 || (0x2000 ≤ n && n ≤ 0x200A) ||
    n = 0x2028 || n = 0x2029 || n = 0x202F || n = 0x205F || n = 0x3000 || n = 0xFEFF

/-- `s.trim()`. -/
def jsTrim (s : JsString) : JsString := (s.dropWhile isJsSpace).rdropWhile isJsSpace

/-- `s.includes(t)`. -/
def includes (s t : JsString) : Bool := s.tails.any (fun r => t.isPrefixOf r)

/-- A piece of markup: of the template, or computed from the entry. -/
inductive MarkupPiece where
  | template (s : String)
  | field (s : JsString)

/-- The class of the pill of a payment, and what it says. -/
def pill (m : ChatMessage) : String × List MarkupPiece :=
  let id := utf16 m.fromId
  let text := utf16 m.text
  if m.msgType = "payment_received" then
    ("pin", [.template "<strong>+", .field (esc text), .template " sats</strong> reçus de <strong>",
      .field (esc id), .template "</strong>"])
  else if m.msgType = "payment_sent" then
    ("pout",
      match (text.splitOn (unit '→')).map jsTrim with
      | [amount, dst] =>
        [.template "<strong>−", .field (esc amount),
          .template " sats</strong> envoyés à <strong>", .field (esc dst), .template "</strong>"]
      | _ => [.template "<strong>−", .field (esc text), .template " sats</strong> envoyés"])
  else if m.msgType = "payment_ack" then
    ("pack", [.template "✓ Paiement confirmé par <strong>", .field (esc id),
      .template "</strong>"])
  else ("pack", [])

namespace Browser
variable (B : Browser)

/-- `avatarColor`: the hue. -/
def hue (id : JsString) : ℕ :=
  (id.foldl (fun h u => B.round (B.round (shiftLeft5 h + h) + u.toNat)) 5381).natAbs % 360

/-- `avatarColor`: the background. -/
def bg (id : JsString) : JsString := utf16 ("hsl(" ++ toString (B.hue id) ++ ",28%,92%)")

/-- `avatarColor`: the foreground. -/
def fg (id : JsString) : JsString := utf16 ("hsl(" ++ toString (B.hue id) ++ ",40%,28%)")

/-- `(m.from_id||'?').substring(0,2).toUpperCase()`. -/
def initials (id : JsString) : JsString :=
  B.toUpperCase ((if id = [] then utf16 "?" else id).take 2)

/-- The markup of a text. -/
def messageMarkup (m : ChatMessage) : List MarkupPiece :=
  let id := utf16 m.fromId
  [.template "\n      <div class=\"av\" style=\"background:", .field (B.bg id),
    .template ";color:", .field (B.fg id), .template "\">", .field (B.initials id),
    .template "</div>\n      <div class=\"mb\">\n        <div class=\"mm\">\n",
    .template "          <span class=\"ma\">", .field (esc id),
    .template "</span>\n          <span class=\"mfp\">", .field (esc (utf16 m.fingerprint)),
    .template "</span>\n          <span class=\"mt\">", .field (B.toLocaleTimeString m.timestamp),
    .template "</span>\n        </div>\n        <div class=\"mx\">",
    .field (esc (utf16 m.text)), .template "</div>\n      </div>"]

/-- `appendMsg`: the class of the element, and its markup. -/
def appendMsg (m : ChatMessage) : String × List MarkupPiece :=
  if m.msgType = "message" then
    (if includes (utf16 m.fromId) (utf16 "(vous)") then "mg sent" else "mg", B.messageMarkup m)
  else
    ("pev",
      [.template "<span class=\"pill ", .template (pill m).1, .template "\">"] ++ (pill m).2 ++
        [.template "</span><span class=\"pt\">", .field (B.toLocaleTimeString m.timestamp),
          .template "</span>"])

end Browser

/-! ## Where markup comes from -/

/-- The text holds no mark. -/
def Clean (s : JsString) : Prop := ∀ u ∈ s, ¬ IsMark u

/-- No mark in the markup stems from the entry. -/
def NoMarkup (html : List MarkupPiece) : Prop := ∀ s, .field s ∈ html → Clean s

instance (s : JsString) : Decidable (Clean s) := List.decidableBAll _ s

variable {s : JsString} {html html' : List MarkupPiece}

@[simp] theorem noMarkup_nil : NoMarkup [] := fun _ h => absurd h List.not_mem_nil

@[simp] theorem noMarkup_template {t : String} :
    NoMarkup (.template t :: html) ↔ NoMarkup html := by
  simp [NoMarkup]

@[simp] theorem noMarkup_field : NoMarkup (.field s :: html) ↔ Clean s ∧ NoMarkup html := by
  simp [NoMarkup]

@[simp] theorem noMarkup_append :
    NoMarkup (html ++ html') ↔ NoMarkup html ∧ NoMarkup html' := by
  simp only [NoMarkup, List.mem_append, or_imp, forall_and]

@[simp] theorem clean_esc (s : JsString) : Clean (esc s) := fun _ hu => not_isMark_of_esc hu

@[simp] theorem clean_time (B : Browser) (ts : UInt64) : Clean (B.toLocaleTimeString ts) :=
  fun u hu hmark => B.mark_toLocaleTimeString ts u hmark hu

/-- Characters of one code unit that are no marks. -/
def Plain (cs : List Char) : Prop := ∀ c ∈ cs, c.toNat < 0x10000 ∧ ¬ IsMark (unit c)

instance (cs : List Char) : Decidable (Plain cs) := List.decidableBAll _ cs

theorem clean_utf16 {s : String} (h : Plain s.toList) : Clean (utf16 s) := by
  intro u hu
  obtain ⟨c, hc, hunits⟩ := List.mem_flatMap.mp hu
  obtain ⟨hlow, hmark⟩ := h c hc
  rw [charUnits, if_pos hlow, List.mem_singleton] at hunits
  rw [hunits]
  exact hmark

theorem plain_digits (n : ℕ) : Plain (toString n).toList := by
  intro c hc
  have hdigits : (toString n).toList = Nat.toDigits 10 n := by simp
  rw [hdigits] at hc
  have hdigit : c.isDigit = true := Nat.isDigit_of_mem_toDigits (by omega) (by omega) hc
  have hrange : 48 ≤ c.toNat ∧ c.toNat ≤ 57 := by
    simpa [Char.isDigit, Char.le_def, UInt32.le_iff_toNat_le] using hdigit
  have hlow : c.toNat < 65536 := by omega
  have hunit : (unit c).toNat = c.toNat := UInt16.toNat_ofNat_of_lt hlow
  refine ⟨hlow, ?_⟩
  rintro (h | h | h) <;> rw [h] at hunit <;> simp [unit] at hunit <;> omega

/-- The colours of the avatar are numbers. -/
theorem clean_hsl (n : ℕ) {before after : String} (hbefore : Plain before.toList)
    (hafter : Plain after.toList) : Clean (utf16 (before ++ toString n ++ after)) := by
  apply clean_utf16
  intro c hc
  rw [String.toList_append, String.toList_append, List.mem_append, List.mem_append] at hc
  rcases hc with (hc | hc) | hc
  · exact hbefore c hc
  · exact plain_digits n c hc
  · exact hafter c hc

@[simp] theorem clean_bg (B : Browser) (id : JsString) : Clean (B.bg id) :=
  clean_hsl (B.hue id) (by decide +kernel) (by decide +kernel)

@[simp] theorem clean_fg (B : Browser) (id : JsString) : Clean (B.fg id) :=
  clean_hsl (B.hue id) (by decide +kernel) (by decide +kernel)

/-- The initials hold the marks of the first two code units. -/
theorem clean_initials_iff (B : Browser) (id : JsString) :
    Clean (B.initials id) ↔ Clean (id.take 2) := by
  have hupper : ∀ s, Clean (B.toUpperCase s) ↔ Clean s := by
    intro s
    constructor
    · exact fun h u hu hmark => h u ((B.mark_toUpperCase s u hmark).mpr hu) hmark
    · exact fun h u hu hmark => h u ((B.mark_toUpperCase s u hmark).mp hu) hmark
  rw [Browser.initials, hupper]
  split
  · rename_i hempty
    rw [hempty]
    exact iff_of_true (by decide +kernel) (by decide)
  · exact Iff.rfl

theorem noMarkup_pill (m : ChatMessage) : NoMarkup (pill m).2 := by
  unfold pill
  split
  · simp
  · split
    · dsimp only
      split <;> simp
    · split <;> simp

/-- The markup of an entry is the template's, but for the initials of a text. -/
theorem noMarkup_appendMsg_iff (B : Browser) (m : ChatMessage) :
    NoMarkup (B.appendMsg m).2 ↔
      (m.msgType = "message" → Clean ((utf16 m.fromId).take 2)) := by
  by_cases hmessage : m.msgType = "message"
  · simp only [Browser.appendMsg, hmessage, if_true, forall_const, Browser.messageMarkup,
      noMarkup_template, noMarkup_field, noMarkup_nil, clean_bg, clean_fg, clean_esc, clean_time,
      true_and, and_true, clean_initials_iff]
  · simp only [Browser.appendMsg, hmessage, if_false, noMarkup_append, noMarkup_template,
      noMarkup_field, noMarkup_nil, noMarkup_pill, clean_time, and_self, false_implies]

/-- **Where markup comes from.**  Decoding undoes the escaping; and for every entry no `<`,
`>` or `"` in the markup stems from it, if and only if it is no text of a sender whose
first two code units hold one. -/
theorem noMarkup_iff (B : Browser) (m : ChatMessage) :
    (∀ s, unescape (esc s) = s) ∧
    (NoMarkup (B.appendMsg m).2 ↔
      (m.msgType = "message" → Clean ((utf16 m.fromId).take 2))) :=
  ⟨unescape_esc, noMarkup_appendMsg_iff B m⟩

/-! ## Two characters of markup -/

/-- A browser that knows the upper case of ASCII, and where it is always midnight. -/
def asciiBrowser : Browser where
  toUpperCase s := s.map (fun u => if unit 'a' ≤ u ∧ u ≤ unit 'z' then u - 32 else u)
  toLocaleTimeString _ := utf16 "00:00"
  round h := h
  mark_toUpperCase := by
    intro s u hu
    have hmark : u.toNat = 60 ∨ u.toNat = 62 ∨ u.toNat = 34 := by
      rcases hu with rfl | rfl | rfl <;> decide
    have hone : ∀ v : UInt16,
        (if unit 'a' ≤ v ∧ v ≤ unit 'z' then v - 32 else v) = u ↔ v = u := by
      intro v
      split
      · -- Neither a small letter nor a capital is a mark.
        rename_i hletter
        have hlow : 97 ≤ v.toNat := UInt16.le_iff_toNat_le.mp hletter.1
        have hhigh : v.toNat ≤ 122 := UInt16.le_iff_toNat_le.mp hletter.2
        have hle : (32 : UInt16) ≤ v := UInt16.le_iff_toNat_le.mpr (Nat.le_trans (by decide) hlow)
        have hsub : (v - 32).toNat = v.toNat - 32 := UInt16.toNat_sub_of_le v 32 hle
        rw [← UInt16.toNat_inj, ← UInt16.toNat_inj, hsub]
        omega
      · exact Iff.rfl
    simp [List.mem_map, hone]
  mark_toLocaleTimeString := by
    intro _
    have htime : Clean (utf16 "00:00") := by decide +kernel
    exact fun u hmark hu => htime u hu hmark

/-- A text from a sender whose name begins with a tag. -/
def tagged : ChatMessage where
  fromId := "<b"
  fingerprint := ""
  text := ""
  timestamp := 0
  msgType := "message"

/-- **Markup comes from the network**: the initials of "<b" are not escaped. -/
theorem initials_unescaped :
    ¬ ∀ (B : Browser) (m : ChatMessage), NoMarkup (B.appendMsg m).2 := by
  intro h
  have hclean := (noMarkup_appendMsg_iff asciiBrowser tagged).mp (h asciiBrowser tagged) rfl
  exact absurd hclean (by decide +kernel)

end Zeta
