import Chisaka.Drivers.Serial.Logger

/-!
# The serial stream

`kout` is a `kostream`, which hands what is inserted on to a `logger`.  A number goes to one of
three methods of the logger, by the mode of the stream; the one for the decimal mode is `log(int)`.

`IsDecimal x text` says that `text` is a decimal numeral of the integer `x`, with a minus sign in
front if `x` is negative.  Such a text tells which number it is of (`IsDecimal.inj`), so a stream
that sends one for every number sends different texts for different numbers (`Writes.tellsApart`).
`writes_and_tellsApart_iff` says which numbers the stream does this for: those that are not
negative.  For the others it sends nothing at all.
-/

set_option autoImplicit false

namespace Chisaka.Serial

/-! ## The stream -/

/-- `intmode`. -/
inductive Intmode
  /-- `dec`. -/
  | dec
  /-- `hex`. -/
  | hex
  /-- `bin`. -/
  | bin
  deriving DecidableEq

/-- `kostream`. -/
structure Kostream where
  /-- `serial_logger`. -/
  serialLogger : Logger
  /-- `m_mode`. -/
  mode : Intmode

/-- `kout`.  Its mode is not set by a constructor, and is 0 at first. -/
def kout : Kostream := ⟨⟨0x3F8⟩, .dec⟩

namespace Kostream

/-- `operator<<`, for a mode. -/
def insertMode (k : Kostream) : Intmode → Kostream
  | .dec => { k with mode := .dec }
  | .hex => { k with mode := .hex }
  | .bin => { k with mode := .bin }

/-- `operator<<`, for an `int`.  `log_hex` and `log_bin` take 64 bits without a sign. -/
def insertInt (k : Kostream) (buffer : ℕ → UInt8) (i : Int32) : Exec (List Outb) :=
  match k.mode with
  | .dec => k.serialLogger.logInt buffer i.toInt
  | .hex => k.serialLogger.logHex buffer i.toInt64.toUInt64.toNat
  | .bin => k.serialLogger.logBin buffer i.toInt64.toUInt64.toNat

end Kostream

/-! ## Decimal numerals with a sign -/

open Logger (digitAscii)

variable {x y : ℤ} {m n : ℕ} {text : List UInt8} {ds ds' : List ℕ}

/-- A decimal numeral of `x`: a minus sign if there is one, and the digits of the magnitude. -/
def IsDecimal (x : ℤ) (text : List UInt8) : Prop :=
  ∃ ds, IsNumeral 10 x.natAbs ds ∧ text = (if x < 0 then [45] else []) ++ ds.map digitAscii

/-- The value of a digit, by its character. -/
theorem toNat_digitAscii : ∀ d < 10, (digitAscii d).toNat - 48 = d := by decide

/-- No digit is a minus sign. -/
theorem digitAscii_ne_minus : ∀ d < 10, digitAscii d ≠ 45 := by decide

theorem map_toNat_digitAscii (h : IsNumeral 10 n ds) :
    (ds.map digitAscii).map (fun c ↦ c.toNat - 48) = ds := by
  rw [List.map_map]
  exact (List.map_congr_left fun d hd ↦ toNat_digitAscii d (h.lt d hd)).trans (List.map_id ds)

/-- The characters of a numeral tell its value. -/
theorem eq_of_map_digitAscii (hm : IsNumeral 10 m ds) (hn : IsNumeral 10 n ds')
    (h : ds.map digitAscii = ds'.map digitAscii) : m = n := by
  have hds : ds = ds' := by rw [← map_toNat_digitAscii hm, h, map_toNat_digitAscii hn]
  rw [← hm.value, hds, hn.value]

theorem minus_not_mem (h : IsNumeral 10 n ds) : (45 : UInt8) ∉ ds.map digitAscii := by
  intro hmem
  obtain ⟨d, hd, h45⟩ := List.mem_map.mp hmem
  exact digitAscii_ne_minus d (h.lt d hd) h45

namespace IsDecimal

/-- A minus sign is what a negative number has, and no other. -/
theorem minus_mem_iff (h : IsDecimal x text) : 45 ∈ text ↔ x < 0 := by
  obtain ⟨ds, hds, rfl⟩ := h
  by_cases hx : x < 0
  · rw [if_pos hx]
    exact iff_of_true List.mem_cons_self hx
  · rw [if_neg hx]
    exact iff_of_false (minus_not_mem hds) hx

/-- **A numeral is of one number.** -/
theorem inj (hx : IsDecimal x text) (hy : IsDecimal y text) : x = y := by
  have hsign : x < 0 ↔ y < 0 := hx.minus_mem_iff.symm.trans hy.minus_mem_iff
  obtain ⟨ds, hds, htext⟩ := hx
  obtain ⟨ds', hds', htext'⟩ := hy
  have hminus : (if x < 0 then [45] else [] : List UInt8) = if y < 0 then [45] else [] :=
    if_congr hsign rfl rfl
  have hdigits : ds.map digitAscii = ds'.map digitAscii := by
    rw [htext, hminus] at htext'
    exact List.append_cancel_left htext'
  have habs : x.natAbs = y.natAbs := eq_of_map_digitAscii hds hds' hdigits
  omega

end IsDecimal

/-! ## What the stream should send, and what it does -/

namespace Kostream

variable {k : Kostream} {i j : Int32}

/-- **The stream writes `i`**, as a decimal numeral. -/
def Writes (k : Kostream) (i : Int32) : Prop :=
  ∃ text, IsDecimal i.toInt text ∧
    ∀ buffer, k.insertInt buffer i = .ok (text.map fun c ↦ ⟨k.serialLogger.port, c⟩)

/-- **The stream tells `i` from `j`**: what it sends for the two is never the same. -/
def TellsApart (k : Kostream) (i j : Int32) : Prop :=
  i ≠ j → ∀ buffer buffer', k.insertInt buffer i ≠ k.insertInt buffer' j

/-- **Numerals are told apart.** -/
theorem Writes.tellsApart (hi : k.Writes i) (hj : k.Writes j) : k.TellsApart i j := by
  intro hne buffer buffer' heq
  obtain ⟨text, htext, hsend⟩ := hi
  obtain ⟨text', htext', hsend'⟩ := hj
  rw [hsend, hsend'] at heq
  have hchars : text = text' := by
    have hport : Function.Injective fun c ↦ (⟨k.serialLogger.port, c⟩ : Outb) :=
      fun _ _ h ↦ congrArg Outb.val h
    exact List.map_injective_iff.mpr hport (Except.ok.inj heq)
  exact hne (Int32.toInt_inj.mp (htext.inj (hchars ▸ htext')))

/-- A numeral has a character. -/
theorem Writes.ne_nil (h : k.Writes i) (buffer : ℕ → UInt8) : k.insertInt buffer i ≠ .ok [] := by
  obtain ⟨text, ⟨ds, hds, rfl⟩, hsend⟩ := h
  rw [hsend]
  intro hnil
  have hmap := List.map_eq_nil_iff.mp (Except.ok.inj hnil)
  exact hds.ne_nil (List.map_eq_nil_iff.mp (List.append_eq_nil_iff.mp hmap).2)

theorem TellsApart.symm (h : k.TellsApart i j) : k.TellsApart j i :=
  fun hne buffer buffer' heq ↦ h hne.symm buffer' buffer heq.symm

theorem insertInt_dec (k : Kostream) (buffer : ℕ → UInt8) (i : Int32) :
    (k.insertMode .dec).insertInt buffer i = k.serialLogger.logInt buffer i.toInt := rfl

/-- **A number that is not negative is written.** -/
theorem writes_of_nonneg (hi : 0 ≤ i.toInt) : (k.insertMode .dec).Writes i := by
  obtain ⟨n, hn⟩ := Int.eq_ofNat_of_zero_le hi
  have hfit : n < 10 ^ 100 := by
    have hlt : n < 2 ^ 31 := by
      have := Int32.toInt_lt i
      omega
    exact hlt.trans (by decide)
  obtain ⟨ds, hds, hlog⟩ :=
    Logger.logDigits_eq k.serialLogger Logger.decDigit_eq (by decide) (by decide) hfit
  refine ⟨ds.map digitAscii, ⟨ds, by rwa [hn], ?_⟩, fun buffer ↦ ?_⟩
  · rw [if_neg (Int.not_lt.mpr hi), List.nil_append]
  · rw [insertInt_dec, hn, Logger.logInt_natCast, hlog, List.map_map]
    rfl

/-- **Of a negative number nothing is sent.** -/
theorem insertInt_of_neg (k : Kostream) (buffer : ℕ → UInt8) (hi : i.toInt < 0) :
    (k.insertMode .dec).insertInt buffer i = .ok [] := by
  rw [insertInt_dec]
  exact Logger.logInt_of_neg k.serialLogger buffer hi

/-- A number that is written is told from every negative one. -/
theorem Writes.tellsApart_of_neg (h : (k.insertMode .dec).Writes i) (hj : j.toInt < 0) :
    (k.insertMode .dec).TellsApart i j := by
  intro _ buffer buffer' heq
  rw [insertInt_of_neg k buffer' hj] at heq
  exact h.ne_nil buffer heq

/-- **The numbers that are written** in the decimal mode are those that are not negative, and two
numbers are told apart unless both of them are negative. -/
theorem writes_and_tellsApart_iff (k : Kostream) (i j : Int32) :
    ((k.insertMode .dec).Writes i ↔ 0 ≤ i.toInt) ∧
      ((k.insertMode .dec).TellsApart i j ↔ i = j ∨ 0 ≤ i.toInt ∨ 0 ≤ j.toInt) := by
  refine ⟨⟨fun h ↦ ?_, writes_of_nonneg⟩, fun h ↦ ?_, fun h hne ↦ ?_⟩
  · by_contra! hi
    exact h.ne_nil (fun _ ↦ 0) (insertInt_of_neg k _ hi)
  · by_contra! hboth
    obtain ⟨hne, hi, hj⟩ := hboth
    have hsame : ∀ buffer, (k.insertMode .dec).insertInt buffer i
        = (k.insertMode .dec).insertInt buffer j := fun buffer ↦ by
      rw [insertInt_of_neg k buffer hi, insertInt_of_neg k buffer hj]
    exact h hne _ _ (hsame fun _ ↦ 0)
  · have hor : 0 ≤ i.toInt ∨ 0 ≤ j.toInt := h.resolve_left hne
    rcases lt_or_ge i.toInt 0 with hi | hi
    · have hj : 0 ≤ j.toInt := hor.resolve_left (Int.not_le.mpr hi)
      exact ((writes_of_nonneg hj).tellsApart_of_neg hi).symm hne
    · rcases lt_or_ge j.toInt 0 with hj | hj
      · exact (writes_of_nonneg hi).tellsApart_of_neg hj hne
      · exact (writes_of_nonneg hi).tellsApart (writes_of_nonneg hj) hne

/-- `-1` and `-2` are not written, and not told apart. -/
theorem insertInt_neg_one_two : (∀ buffer, kout.insertInt buffer (-1) = .ok []) ∧
    (∀ buffer, kout.insertInt buffer (-2) = .ok []) ∧
      ¬kout.Writes (-1) ∧ ¬kout.TellsApart (-1) (-2) := by
  have hone : ∀ buffer, kout.insertInt buffer (-1) = .ok [] :=
    fun buffer ↦ insertInt_of_neg kout buffer (show (-1 : Int32).toInt < 0 by decide)
  have htwo : ∀ buffer, kout.insertInt buffer (-2) = .ok [] :=
    fun buffer ↦ insertInt_of_neg kout buffer (show (-2 : Int32).toInt < 0 by decide)
  refine ⟨hone, htwo, fun h ↦ h.ne_nil (fun _ ↦ 0) (hone _), fun h ↦ ?_⟩
  exact h (by decide) (fun _ ↦ 0) (fun _ ↦ 0) ((hone _).trans (htwo _).symm)

end Kostream

end Chisaka.Serial
