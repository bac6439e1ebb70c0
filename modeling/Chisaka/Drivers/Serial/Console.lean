import Chisaka.Drivers.Serial.Kostream
import Chisaka.Lib.Bytes
import Chisaka.Types

/-!
# What a console shows

Whatever is inserted into a `kostream` goes to the serial port, and the stream remembers nothing
but the mode for numbers.  A console at the other end of the line wants a carriage return before
every line feed, and `operator<<` puts it there, for a character as well as inside a C string
(`onWire`).  `unixText` takes it off again, and nothing else: `unixText_onWire`.

`Insert.Shows` says which text an insertion stands for, in a mode of the stream, and `ShowsAll` what
a chain of insertions does, of which each may change the mode for those behind it.  The results are

* `Logger.logString_eq` and `Logger.logString_returns`: a C string is sent up to its end, and the
  loop runs off the end of memory if it has none,
* `Kostream.insert_iff`: an insertion returns exactly if it is `Ready`, and then sends its text, and
* `Kostream.insertAll_shows`: what a console shows of a chain of insertions is the texts of all of
  them, one after the other.
-/

set_option autoImplicit false

namespace Chisaka.Serial

open Bytes (Memory)

/-! ## Characters and strings -/

/-- `*ch`. -/
def charAt (mem : Memory) (ch : ℕ) : Exec UInt8 :=
  if ch = 0 then .error .nullDeref else .ok (mem ch)

namespace Logger

/-- `log(char)`. -/
def logChar (l : Logger) (ch : UInt8) : List Outb := [⟨l.port, ch⟩]

/-- A round of the loop in `log(const char*)`: the pointer, and what was sent so far. -/
def stringBody (l : Logger) (mem : Memory) :
    ℕ × List Outb → Exec ((ℕ × List Outb) ⊕ List Outb)
  | (ch, sent) => do
    let c ← charAt mem ch
    if c ≠ 0 then
      if c = 10 then return .inl (add64 ch 1, sent ++ [⟨l.port, 13⟩, ⟨l.port, 10⟩])
      else return .inl (add64 ch 1, sent ++ [⟨l.port, c⟩])
    else return .inr sent

/-- `log(const char*)`. -/
def logString (l : Logger) (mem : Memory) (st : UInt64) : Exec (List Outb) :=
  Loop.exec (l.stringBody mem) (st.toNat, [])

end Logger

/-! ## Insertions -/

/-- What can be inserted into a stream. -/
inductive Insert
  /-- `operator<<(intmode)`. -/
  | mode (im : Intmode)
  /-- `operator<<(char)`. -/
  | char (ch : UInt8)
  /-- `operator<<(const char*)`, with the memory as it is at the time. -/
  | string (mem : Memory) (st : UInt64)
  /-- `operator<<(T)`, for an unsigned type. -/
  | unsigned (i : UInt64)
  /-- `operator<<(T)`, for `int`. -/
  | int (i : Int32)

namespace Kostream

/-- `operator<<`, for a `char`. -/
def insertChar (k : Kostream) (ch : UInt8) : List Outb :=
  if ch = 10 then k.serialLogger.logChar 13 ++ k.serialLogger.logChar 10
  else k.serialLogger.logChar ch

/-- `operator<<`, for a C string. -/
def insertString (k : Kostream) (mem : Memory) (st : UInt64) : Exec (List Outb) :=
  k.serialLogger.logString mem st

/-- `operator<<`, for an unsigned type.  `log` takes the type as it is, and the other two take
64 bits. -/
def insertUnsigned (k : Kostream) (buffer : ℕ → UInt8) (i : UInt64) : Exec (List Outb) :=
  match k.mode with
  | .dec => k.serialLogger.log buffer i.toNat
  | .hex => k.serialLogger.logHex buffer i.toNat
  | .bin => k.serialLogger.logBin buffer i.toNat

/-- Any `operator<<`: the stream that it returns, and what it sends.  `buffer` is what the stack
holds before. -/
def insert (k : Kostream) (buffer : ℕ → UInt8) : Insert → Exec (Kostream × List Outb)
  | .mode im => return (k.insertMode im, [])
  | .char ch => return (k, k.insertChar ch)
  | .string mem st => return (k, ← k.insertString mem st)
  | .unsigned i => return (k, ← k.insertUnsigned buffer i)
  | .int i => return (k, ← k.insertInt buffer i)

/-- A chain of insertions, `k << a << b << c`. -/
def insertAll (k : Kostream) : List ((ℕ → UInt8) × Insert) → Exec (Kostream × List Outb)
  | [] => return (k, [])
  | (buffer, i) :: is => do
    let (k, sent) ← k.insert buffer i
    let (k, rest) ← k.insertAll is
    return (k, sent ++ rest)

end Kostream

/-! ## Texts, and what is on the wire -/

/-- A text on the line to a console. -/
def onWire (text : List UInt8) : List UInt8 :=
  text.flatMap fun c ↦ if c = 10 then [13, 10] else [c]

/-- What a console makes of it: a carriage return and a line feed are the end of a line. -/
def unixText : List UInt8 → List UInt8
  | [] => []
  | [c] => [c]
  | c :: d :: wire => if c = 13 ∧ d = 10 then 10 :: unixText wire else c :: unixText (d :: wire)

variable {mem : Memory} {p : ℕ} {c : UInt8} {text wire : List UInt8}

@[simp] theorem onWire_nil : onWire [] = [] := rfl

theorem onWire_cons : onWire (c :: text) = (if c = 10 then [13, 10] else [c]) ++ onWire text :=
  List.flatMap_cons

theorem onWire_append (text text' : List UInt8) :
    onWire (text ++ text') = onWire text ++ onWire text' := List.flatMap_append

/-- Nothing on the wire starts with a line feed. -/
theorem head?_onWire (text : List UInt8) : (onWire text).head? ≠ some 10 := by
  cases text with
  | nil => simp
  | cons c text =>
    rw [onWire_cons]
    by_cases hc : c = 10
    · simp [hc]
    · simp [hc]

/-- A character that no line feed follows is as it is. -/
theorem unixText_cons (h : wire.head? ≠ some 10) : unixText (c :: wire) = c :: unixText wire := by
  cases wire with
  | nil => rfl
  | cons d wire =>
    have hd : d ≠ 10 := fun hd ↦ h (congrArg some hd)
    exact if_neg fun hcd ↦ hd hcd.2

/-- **Nothing is lost on the wire.** -/
theorem unixText_onWire (text : List UInt8) : unixText (onWire text) = text := by
  induction text with
  | nil => rfl
  | cons c text ih =>
    rw [onWire_cons]
    by_cases hc : c = 10
    · subst hc
      exact congrArg (10 :: ·) ih
    · rw [if_neg hc, List.singleton_append, unixText_cons (head?_onWire text), ih]

/-- `mem` holds a C string at `p`. -/
inductive CString (mem : Memory) : ℕ → List UInt8 → Prop
  | nil {p : ℕ} (hp : p ≠ 0) (h : mem p = 0) : CString mem p []
  | cons {p : ℕ} {text : List UInt8} (hp : p ≠ 0) (h : mem p ≠ 0)
      (ht : CString mem (add64 p 1) text) : CString mem p (mem p :: text)

/-- A C string does not reach over the end of memory. -/
theorem CString.add_length_lt (h : CString mem p text) (hp : p < 2 ^ 64) :
    p + text.length < 2 ^ 64 := by
  induction h with
  | nil => exact hp
  | @cons p text hp0 _ ht ih =>
    have hne : add64 p 1 ≠ 0 := by
      cases ht with
      | nil hp _ => exact hp
      | cons hp _ _ => exact hp
    have hnext : add64 p 1 = p + 1 := by
      rw [add64] at hne ⊢
      omega
    rw [hnext] at ih
    have hlt : p + 1 < 2 ^ 64 := by
      rw [← hnext]
      exact Nat.mod_lt _ (by decide)
    have := ih hlt
    rw [List.length_cons]
    omega

/-! ## The logger -/

namespace Logger

variable {l : Logger} {sent : List Outb} {mem : Memory} {p n base x : ℕ} {text : List UInt8}

/-- A text on the line, as calls of `outb`. -/
def outbs (l : Logger) (text : List UInt8) : List Outb := (onWire text).map fun c ↦ ⟨l.port, c⟩

theorem outbs_append (l : Logger) (text text' : List UInt8) :
    l.outbs (text ++ text') = l.outbs text ++ l.outbs text' := by
  rw [outbs, onWire_append, List.map_append]
  rfl

/-- A round at a character. -/
theorem stringBody_char (l : Logger) (hp : p ≠ 0) (hc : mem p ≠ 0) (sent : List Outb) :
    l.stringBody mem (p, sent) = .ok (.inl (add64 p 1, sent ++ l.outbs [mem p])) := by
  have hchar : charAt mem p = .ok (mem p) := if_neg hp
  rw [stringBody, hchar, Exec.ok_bind, if_pos hc, outbs, onWire_cons, onWire_nil, List.append_nil]
  by_cases h10 : mem p = 10
  · rw [if_pos h10, if_pos h10]
    rfl
  · rw [if_neg h10, if_neg h10]
    rfl

/-- The round at the end. -/
theorem stringBody_end (l : Logger) (hp : p ≠ 0) (hc : mem p = 0) (sent : List Outb) :
    l.stringBody mem (p, sent) = .ok (.inr sent) := by
  have hchar : charAt mem p = .ok (mem p) := if_neg hp
  rw [stringBody, hchar, Exec.ok_bind, if_neg (not_not_intro hc)]
  rfl

/-- **The loop sends the characters of a C string** behind what it has sent. -/
theorem run_stringBody (l : Logger) (h : CString mem p text) : ∀ {n : ℕ} (sent : List Outb),
    text.length < n → Loop.run (l.stringBody mem) n (p, sent) = .ok (sent ++ l.outbs text) := by
  induction h with
  | nil hp hc =>
    intro n sent hn
    obtain ⟨n, rfl⟩ := Nat.exists_eq_succ_of_ne_zero (Nat.ne_of_gt hn)
    rw [Loop.run_inr (l.stringBody_end hp hc sent)]
    exact congrArg Except.ok (List.append_nil sent).symm
  | @cons p text hp hc _ ih =>
    intro n sent hn
    rw [List.length_cons] at hn
    obtain ⟨n, rfl⟩ := Nat.exists_eq_succ_of_ne_zero (Nat.ne_of_gt (Nat.zero_lt_of_lt hn))
    rw [Loop.run_inl (l.stringBody_char hp hc sent), ih _ (Nat.lt_of_succ_lt_succ hn),
      List.append_assoc, ← outbs_append, List.singleton_append]

/-- A loop that ends was over a C string. -/
theorem cstring_of_run : ∀ {n p : ℕ} {sent out : List Outb},
    Loop.run (l.stringBody mem) n (p, sent) = .ok out → ∃ text, CString mem p text := by
  intro n
  induction n with
  | zero => exact fun h ↦ by cases h
  | succ n ih =>
    intro p sent out h
    by_cases hp : p = 0
    · have hbody : l.stringBody mem (p, sent) = .error .nullDeref := by
        rw [stringBody, charAt, if_pos hp, Exec.error_bind]
      rw [Loop.run_error hbody] at h
      cases h
    · by_cases hc : mem p = 0
      · exact ⟨[], .nil hp hc⟩
      · rw [Loop.run_inl (l.stringBody_char hp hc sent)] at h
        obtain ⟨text, ht⟩ := ih h
        exact ⟨_, .cons hp hc ht⟩

/-- **A C string is sent up to its end.** -/
theorem logString_eq (l : Logger) {st : UInt64} (h : CString mem st.toNat text) :
    l.logString mem st = .ok (l.outbs text) := by
  have hlen : text.length < Loop.rounds := by
    have := h.add_length_lt st.toNat_lt
    rw [Loop.rounds]
    omega
  rw [logString, Loop.exec, l.run_stringBody h [] hlen, List.nil_append]

/-- **Only a C string is sent.** -/
theorem logString_returns (l : Logger) (mem : Memory) (st : UInt64) :
    (∃ sent, l.logString mem st = .ok sent) ↔ ∃ text, CString mem st.toNat text := by
  refine ⟨fun ⟨sent, h⟩ ↦ cstring_of_run h, fun ⟨text, h⟩ ↦ ⟨_, l.logString_eq h⟩⟩

/-- A text without line feeds is on the line as it is. -/
theorem outbs_of_not_mem (l : Logger) (h : 10 ∉ text) :
    l.outbs text = text.map fun c ↦ ⟨l.port, c⟩ := by
  induction text with
  | nil => rfl
  | cons c text ih =>
    rw [List.mem_cons, not_or] at h
    have hsingle : l.outbs [c] = [⟨l.port, c⟩] := by
      rw [outbs, onWire_cons, if_neg (Ne.symm h.1)]
      rfl
    rw [← List.singleton_append, outbs_append, hsingle, ih h.2]
    rfl

/-- The characters of a numeral are none that the line treats in its own way. -/
theorem digitAscii_ne_newline : ∀ d < 16, digitAscii d ≠ 10 := by decide

/-- A numeral of `x` in a base, as a text. -/
def IsNumeralText (base x : ℕ) (text : List UInt8) : Prop :=
  ∃ ds, IsNumeral base x ds ∧ text = ds.map digitAscii

theorem IsNumeralText.newline_not_mem (h : IsNumeralText base x text) (hb : base ≤ 16) :
    10 ∉ text := by
  obtain ⟨ds, hds, rfl⟩ := h
  intro hmem
  obtain ⟨d, hd, h10⟩ := List.mem_map.mp hmem
  exact digitAscii_ne_newline d (Nat.lt_of_lt_of_le (hds.lt d hd) hb) h10

/-- **A number whose digits fit is sent as its numeral.** -/
theorem logDigits_outbs (l : Logger) {len : ℕ} {digit : ℕ → UInt8}
    (hdigit : ∀ d < base, digit d = digitAscii d) (hb : 1 < base) (hb16 : base ≤ 16)
    (hlen : len < Loop.rounds) (hx : x < base ^ len) :
    ∃ text, IsNumeralText base x text ∧
      ∀ buffer, l.logDigits len base digit buffer x = .ok (l.outbs text) := by
  obtain ⟨ds, hds, hlog⟩ := logDigits_eq l hdigit hb hlen hx
  have htext : IsNumeralText base x (ds.map digitAscii) := ⟨ds, hds, rfl⟩
  refine ⟨_, htext, fun buffer ↦ ?_⟩
  rw [hlog, l.outbs_of_not_mem (htext.newline_not_mem hb16), List.map_map]
  rfl

end Logger

/-! ## What an insertion shows -/

/-- The base of a mode. -/
def Intmode.base : Intmode → ℕ
  | .dec => 10
  | .hex => 16
  | .bin => 2

namespace Insert

/-- The text that an insertion stands for, in a mode.  A negative number is a bit pattern of 64
bits in `hex`, and nothing in `dec`. -/
def Shows (m : Intmode) : Insert → List UInt8 → Prop
  | .mode _, text => text = []
  | .char ch, text => text = [ch]
  | .string mem st, text => CString mem st.toNat text
  | .unsigned i, text => Logger.IsNumeralText m.base i.toNat text
  | .int i, text =>
    if m = .dec ∧ i.toInt < 0 then text = []
    else Logger.IsNumeralText m.base (i.toInt % 2 ^ 64).toNat text

/-- A number that is not a negative one in the decimal mode has a numeral. -/
theorem shows_int_of {m : Intmode} {i : Int32} (h : ¬(m = .dec ∧ i.toInt < 0)) :
    (Insert.int i).Shows m text ↔ Logger.IsNumeralText m.base (i.toInt % 2 ^ 64).toNat text := by
  rw [Shows, if_neg h]

theorem shows_int_of_neg {i : Int32} (h : i.toInt < 0) : (Insert.int i).Shows .dec text ↔
    text = [] := by
  rw [Shows, if_pos ⟨rfl, h⟩]

/-- What an insertion needs: a string has an end, and a number in `bin` has at most 20 digits. -/
def Ready (m : Intmode) : Insert → Prop
  | .mode _ => True
  | .char _ => True
  | .string mem st => ∃ text, CString mem st.toNat text
  | .unsigned i => m = .bin → i.toNat < 2 ^ 20
  | .int i => m = .bin → 0 ≤ i.toInt ∧ i.toInt < 2 ^ 20

/-- The mode afterwards. -/
def next (m : Intmode) : Insert → Intmode
  | .mode im => im
  | _ => m

end Insert

/-- What a chain of insertions shows, and the mode it leaves. -/
def ShowsAll (m : Intmode) : List Insert → Intmode → List UInt8 → Prop
  | [], m', text => m' = m ∧ text = []
  | i :: is, m', text => ∃ first rest, i.Shows m first ∧ ShowsAll (i.next m) is m' rest ∧
      text = first ++ rest

/-- What a chain of insertions needs. -/
def ReadyAll (m : Intmode) : List Insert → Prop
  | [] => True
  | i :: is => i.Ready m ∧ ReadyAll (i.next m) is

namespace Kostream

open Logger (IsNumeralText)

variable {k : Kostream} {i : Insert}

theorem toNat_toUInt64 (i : Int32) : i.toInt64.toUInt64.toNat = (i.toInt % 2 ^ 64).toNat := by
  have hint : i.toInt64.toBitVec.toInt = i.toInt := Int32.toInt_toInt64 i
  have hcond := BitVec.toInt_eq_toNat_cond i.toInt64.toBitVec
  have hlt := i.toInt64.toBitVec.isLt
  change i.toInt64.toBitVec.toNat = _
  split at hcond <;> omega

/-- **An unsigned number is sent** in the base of the mode. -/
theorem insertUnsigned_eq (k : Kostream) {x : UInt64} (h : k.mode = .bin → x.toNat < 2 ^ 20) :
    ∃ text, IsNumeralText k.mode.base x.toNat text ∧
      ∀ buffer, k.insertUnsigned buffer x = .ok (k.serialLogger.outbs text) := by
  have hx := x.toNat_lt
  unfold insertUnsigned
  cases hm : k.mode with
  | dec =>
    exact k.serialLogger.logDigits_outbs Logger.decDigit_eq (by decide) (by decide)
      (show 30 < Loop.rounds by decide) (hx.trans (by decide))
  | hex =>
    exact k.serialLogger.logDigits_outbs Logger.hexDigit_eq (by decide) (by decide)
      (show 20 < Loop.rounds by decide) (hx.trans (by decide))
  | bin =>
    exact k.serialLogger.logDigits_outbs Logger.binDigit_eq (by decide) (by decide)
      (show 20 < Loop.rounds by decide) (h hm)

/-- Of a number with more than 20 binary digits the first ones are written behind the buffer. -/
theorem insertUnsigned_overflow {x : UInt64} (hm : k.mode = .bin) (hx : 2 ^ 20 ≤ x.toNat)
    (buffer : ℕ → UInt8) : k.insertUnsigned buffer x = .error .dangling := by
  unfold insertUnsigned
  rw [hm]
  exact Logger.logDigits_overflow k.serialLogger Logger.binDigit (by decide)
    (show 64 < Loop.rounds by decide) x.toNat_lt hx buffer

/-- Apart from the decimal mode, a signed number is an unsigned one of 64 bits. -/
theorem insertInt_of_ne_dec (hm : k.mode ≠ .dec) (buffer : ℕ → UInt8) (x : Int32) :
    k.insertInt buffer x = k.insertUnsigned buffer x.toInt64.toUInt64 := by
  unfold insertInt insertUnsigned
  cases hk : k.mode with
  | dec => exact absurd hk hm
  | hex => rfl
  | bin => rfl

/-- **A signed number is sent**, unless it is a negative one in the decimal mode. -/
theorem insertInt_eq (k : Kostream) {x : Int32} (h : (Insert.int x).Ready k.mode) :
    ∃ text, (Insert.int x).Shows k.mode text ∧
      ∀ buffer, k.insertInt buffer x = .ok (k.serialLogger.outbs text) := by
  by_cases hm : k.mode = .dec
  · have hinsert : ∀ buffer, k.insertInt buffer x = k.serialLogger.logInt buffer x.toInt := by
      intro buffer
      rw [insertInt, hm]
    rw [hm]
    by_cases hx : x.toInt < 0
    · refine ⟨[], (Insert.shows_int_of_neg hx).mpr rfl, fun buffer ↦ ?_⟩
      rw [hinsert]
      exact Logger.logInt_of_neg k.serialLogger buffer hx
    · obtain ⟨n, hn⟩ := Int.eq_ofNat_of_zero_le (Int.not_lt.mp hx)
      have hlt := Int32.toInt_lt x
      have hvalue : (x.toInt % 2 ^ 64).toNat = n := by omega
      have hfit : n < 10 ^ 100 := Nat.lt_trans (show n < 2 ^ 31 by omega) (by decide)
      obtain ⟨text, ht, hlog⟩ := k.serialLogger.logDigits_outbs Logger.decDigit_eq (by decide)
        (by decide) (show 100 < Loop.rounds by decide) hfit
      refine ⟨text, (Insert.shows_int_of fun h ↦ hx h.2).mpr (hvalue ▸ ht), fun buffer ↦ ?_⟩
      rw [hinsert, hn, Logger.logInt_natCast]
      exact hlog buffer
  · have hfit : k.mode = .bin → x.toInt64.toUInt64.toNat < 2 ^ 20 := by
      intro hb
      have hx := h hb
      rw [toNat_toUInt64]
      omega
    obtain ⟨text, ht, hinsert⟩ := k.insertUnsigned_eq hfit
    rw [toNat_toUInt64] at ht
    refine ⟨text, (Insert.shows_int_of fun h ↦ hm h.1).mpr ht, fun buffer ↦ ?_⟩
    rw [insertInt_of_ne_dec hm]
    exact hinsert buffer

/-- **What is ready is shown.** -/
theorem insert_eq (k : Kostream) (h : i.Ready k.mode) :
    ∃ text, i.Shows k.mode text ∧ ∀ buffer,
      k.insert buffer i = .ok ({ k with mode := i.next k.mode }, k.serialLogger.outbs text) := by
  cases i with
  | mode im =>
    refine ⟨[], rfl, fun buffer ↦ ?_⟩
    cases im <;> rfl
  | char ch =>
    refine ⟨[ch], rfl, fun buffer ↦ ?_⟩
    have hsent : k.insertChar ch = k.serialLogger.outbs [ch] := by
      rw [insertChar, Logger.outbs, onWire_cons, onWire_nil, List.append_nil]
      by_cases h10 : ch = 10
      · rw [if_pos h10, if_pos h10]
        rfl
      · rw [if_neg h10, if_neg h10]
        rfl
    rw [insert, hsent]
    rfl
  | string mem st =>
    obtain ⟨text, ht⟩ := h
    refine ⟨text, ht, fun buffer ↦ ?_⟩
    rw [insert, insertString, Logger.logString_eq _ ht]
    rfl
  | unsigned x =>
    obtain ⟨text, ht, hinsert⟩ := k.insertUnsigned_eq h
    refine ⟨text, ht, fun buffer ↦ ?_⟩
    rw [insert, hinsert]
    rfl
  | int x =>
    obtain ⟨text, ht, hinsert⟩ := k.insertInt_eq h
    refine ⟨text, ht, fun buffer ↦ ?_⟩
    rw [insert, hinsert]
    rfl

/-- **What is not ready faults.** -/
theorem insert_error (h : ¬i.Ready k.mode) (buffer : ℕ → UInt8) :
    ∃ e, k.insert buffer i = .error e := by
  cases i with
  | mode im => exact absurd trivial h
  | char ch => exact absurd trivial h
  | string mem st =>
    rw [insert, insertString]
    cases hlog : k.serialLogger.logString mem st with
    | error e => exact ⟨e, rfl⟩
    | ok sent => exact absurd ((Logger.logString_returns _ mem st).mp ⟨sent, hlog⟩) h
  | unsigned x =>
    obtain ⟨hm, hx⟩ := Classical.not_imp.mp h
    rw [insert, insertUnsigned_overflow hm (Nat.not_lt.mp hx)]
    exact ⟨_, rfl⟩
  | int x =>
    obtain ⟨hm, hx⟩ := Classical.not_imp.mp h
    have hdec : k.mode ≠ .dec := fun hdec ↦ by cases hm.symm.trans hdec
    have hlt := Int32.toInt_lt x
    have hle := Int32.le_toInt x
    have hvalue : 2 ^ 20 ≤ x.toInt64.toUInt64.toNat := by
      rw [toNat_toUInt64]
      omega
    rw [insert, insertInt_of_ne_dec hdec, insertUnsigned_overflow hm hvalue]
    exact ⟨_, rfl⟩

/-! ## Chains of insertions -/

/-- **A chain that is ready is shown**, one insertion after the other. -/
theorem insertAll_eq : ∀ {is : List ((ℕ → UInt8) × Insert)} {k : Kostream},
    ReadyAll k.mode (is.map Prod.snd) → ∃ m text, ShowsAll k.mode (is.map Prod.snd) m text ∧
      k.insertAll is = .ok ({ k with mode := m }, k.serialLogger.outbs text) := by
  intro is
  induction is with
  | nil => exact fun {k} _ ↦ ⟨k.mode, [], ⟨rfl, rfl⟩, rfl⟩
  | cons bi is ih =>
    obtain ⟨buffer, i⟩ := bi
    rintro k ⟨hready, hrest⟩
    obtain ⟨first, hfirst, hinsert⟩ := k.insert_eq hready
    let k₁ : Kostream := { k with mode := i.next k.mode }
    obtain ⟨m, rest, hshows, hall⟩ := ih (k := k₁) hrest
    refine ⟨m, first ++ rest, ⟨first, rest, hfirst, hshows, rfl⟩, ?_⟩
    rw [insertAll, hinsert, Exec.ok_bind]
    change (k₁.insertAll is >>= _) = _
    rw [hall, Exec.ok_bind, Logger.outbs_append]
    rfl

/-- **A chain that returns was ready.** -/
theorem readyAll_of_insertAll : ∀ {is : List ((ℕ → UInt8) × Insert)} {k : Kostream}
    {r : Kostream × List Outb}, k.insertAll is = .ok r → ReadyAll k.mode (is.map Prod.snd) := by
  intro is
  induction is with
  | nil => exact fun _ ↦ trivial
  | cons bi is ih =>
    obtain ⟨buffer, i⟩ := bi
    intro k r h
    rw [insertAll, Exec.bind_eq_ok] at h
    obtain ⟨⟨k₁, sent⟩, hinsert, h⟩ := h
    have hready : i.Ready k.mode := by
      by_contra hnot
      obtain ⟨e, he⟩ := insert_error hnot buffer
      cases hinsert.symm.trans he
    obtain ⟨text, -, heq⟩ := k.insert_eq hready
    cases hinsert.symm.trans (heq buffer)
    obtain ⟨r₁, hall, -⟩ := Exec.bind_eq_ok.mp h
    exact ⟨hready, ih hall⟩

/-- **A console shows the texts of all insertions**, one after the other and each in the mode that
is in force there; and a chain returns exactly if every string in it has an end and every number in
`bin` fits. -/
theorem insertAll_shows (k : Kostream) (is : List ((ℕ → UInt8) × Insert)) :
    ((∃ r, k.insertAll is = .ok r) ↔ ReadyAll k.mode (is.map Prod.snd)) ∧
      ∀ k' sent, k.insertAll is = .ok (k', sent) →
        k'.serialLogger = k.serialLogger ∧ (∀ o ∈ sent, o.port = k.serialLogger.port) ∧
        ShowsAll k.mode (is.map Prod.snd) k'.mode (unixText (sent.map Outb.val)) ∧
        sent.map Outb.val = onWire (unixText (sent.map Outb.val)) := by
  refine ⟨⟨fun ⟨r, h⟩ ↦ readyAll_of_insertAll h, fun h ↦ ?_⟩, fun k' sent h ↦ ?_⟩
  · obtain ⟨m, text, -, hall⟩ := insertAll_eq h
    exact ⟨_, hall⟩
  · obtain ⟨m, text, hshows, hall⟩ := insertAll_eq (readyAll_of_insertAll h)
    cases h.symm.trans hall
    have hwire : (k.serialLogger.outbs text).map Outb.val = onWire text := by
      rw [Logger.outbs, List.map_map]
      exact List.map_id _
    have hport : ∀ o ∈ k.serialLogger.outbs text, o.port = k.serialLogger.port := by
      intro o ho
      obtain ⟨c, -, rfl⟩ := List.mem_map.mp ho
      rfl
    rw [hwire, unixText_onWire]
    exact ⟨rfl, hport, hshows, rfl⟩

/-- `kout << intmode::hex << 255u << '\n'`. -/
theorem insertAll_shows_hex :
    ShowsAll .dec [.mode .hex, .unsigned 255, .char 10] .hex [70, 70, 10] := by
  have hall : kout.insertAll [(fun _ ↦ 0, .mode .hex), (fun _ ↦ 0, .unsigned 255),
      (fun _ ↦ 0, .char 10)] = .ok (⟨⟨0x3F8⟩, .hex⟩,
        [⟨0x3F8, 70⟩, ⟨0x3F8, 70⟩, ⟨0x3F8, 13⟩, ⟨0x3F8, 10⟩]) := rfl
  exact ((insertAll_shows kout _).2 _ _ hall).2.2.1

end Kostream

end Chisaka.Serial
