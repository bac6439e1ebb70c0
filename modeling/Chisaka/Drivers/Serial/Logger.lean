import Chisaka.Lib.Numeral

/-!
# The serial log

A `logger` sends characters to a port, by calls of `outb`.  Numbers are written in three bases by
methods of one shape, `logDigits`: divide again and again, keep the characters of the digits in a
buffer on the stack, and send the buffer from its end on.  The buffer has a fixed length, and
nothing in the method checks the index; here a write behind the end is a fault.

`logDigits_eq` is what such a method sends if the digits fit, and `logDigits_overflow` is what
becomes of it if they do not.  `inside_iff` says the same of the indices.  The results for the
methods are

* `sendsNumerals`: 64 bits are up to 20 decimal digits and 16 hexadecimal ones, and the buffers of
  `log` and `log_hex` have 30 and 20,
* `sendsBinary_iff`: the buffer of `log_bin` has 20 too, and numbers from `2 ^ 20` on do not fit,
  and
* `logInt_natCast` and `logInt_of_neg`, for the method with a sign: it has the same loop, with a
  guard that holds of no negative number.
-/

set_option autoImplicit false

namespace Chisaka.Serial

/-- A call of `outb`. -/
structure Outb where
  /-- The port. -/
  port : ℤ
  /-- The character. -/
  val : UInt8
  deriving DecidableEq

/-- `logger`. -/
structure Logger where
  /-- `m_port`. -/
  port : ℤ

/-! ## The methods -/

/-- `buffer[index++] = ch`, in a buffer of `len` characters. -/
def push (len : ℕ) (ch : UInt8) : ℕ × (ℕ → UInt8) → Exec (ℕ × (ℕ → UInt8))
  | (index, buffer) =>
    if index < len then .ok (index + 1, Function.update buffer index ch)
    else .error .dangling

/-- The loop over the digits.  `digit` is a digit as a character. -/
def digitsBody (len base : ℕ) (digit : ℕ → UInt8) :
    ℕ × ℕ × (ℕ → UInt8) → Exec ((ℕ × ℕ × (ℕ → UInt8)) ⊕ (ℕ × (ℕ → UInt8))) :=
  Digits.body base fun d ↦ push len (digit d)

namespace Logger

/-- The loop that sends the first characters of the buffer, the last of them first. -/
def sendDown (l : Logger) (buffer : ℕ → UInt8) : ℕ → List Outb
  | 0 => []
  | i + 1 => ⟨l.port, buffer i⟩ :: l.sendDown buffer i

/-- Write an unsigned number.  `buffer` is what the stack holds before. -/
def logDigits (len base : ℕ) (digit : ℕ → UInt8) (l : Logger) (buffer : ℕ → UInt8) (x : ℕ) :
    Exec (List Outb) := do
  if x = 0 then
    return [⟨l.port, 48⟩]
  let (index, buffer) ← Loop.exec (digitsBody len base digit) (x, 0, buffer)
  return l.sendDown buffer index

/-- A digit of `log`. -/
def decDigit (digit : ℕ) : UInt8 := UInt8.ofNat (digit + 48)

/-- A digit of `log_hex`. -/
def hexDigit (digit : ℕ) : UInt8 :=
  if digit < 0xA then UInt8.ofNat (digit + 48) else UInt8.ofNat (digit + 55)

/-- `log<T>`, for an unsigned type. -/
def log := logDigits 30 10 decDigit

/-- `log_hex`. -/
def logHex := logDigits 20 16 hexDigit

/-- A digit of `log_bin`. -/
def binDigit (digit : ℕ) : UInt8 := if digit = 0 then 48 else 49

/-- `log_bin`. -/
def logBin := logDigits 20 2 binDigit

/-- A digit of `log(int)`. -/
def intDigit (digit : ℤ) : UInt8 := UInt8.ofInt (digit + 48)

/-- A round of the loop in `log(int)`.  The quotient and the remainder are truncated. -/
def intBody : ℤ × ℕ × (ℕ → UInt8) → Exec ((ℤ × ℕ × (ℕ → UInt8)) ⊕ (ℕ × (ℕ → UInt8)))
  | (x, s) =>
    if 0 < x then do
      let s ← push 100 (intDigit (x.tmod 10)) s
      return .inl (x.tdiv 10, s)
    else return .inr s

/-- `log(int)`. -/
def logInt (l : Logger) (buffer : ℕ → UInt8) (x : ℤ) : Exec (List Outb) := do
  if x = 0 then
    return [⟨l.port, 48⟩]
  let (index, buffer) ← Loop.exec intBody (x, 0, buffer)
  return l.sendDown buffer index

/-! ## What they should send -/

/-- A digit as a character: `0` to `9` and `A` to `F`. -/
def digitAscii (d : ℕ) : UInt8 := UInt8.ofNat (Nat.digitChar d).toUpper.toNat

/-- **`log` and `log_hex` write `x`.** -/
structure SendsNumerals (l : Logger) (x : ℕ) : Prop where
  /-- `log` sends the decimal numeral. -/
  log : ∃ ds, IsNumeral 10 x ds ∧
    ∀ buffer, l.log buffer x = .ok (ds.map fun d ↦ ⟨l.port, digitAscii d⟩)
  /-- `log_hex` sends the hexadecimal one. -/
  logHex : ∃ ds, IsNumeral 16 x ds ∧
    ∀ buffer, l.logHex buffer x = .ok (ds.map fun d ↦ ⟨l.port, digitAscii d⟩)
  /-- A round of `log` that has a digit writes it inside the buffer. -/
  logInside : ∀ buffer x' index buffer',
    Loop.Visits (digitsBody 30 10 decDigit) (x, 0, buffer) (x', index, buffer') → 0 < x' →
      index < 30
  /-- So does one of `log_hex`. -/
  hexInside : ∀ buffer x' index buffer',
    Loop.Visits (digitsBody 20 16 hexDigit) (x, 0, buffer) (x', index, buffer') → 0 < x' →
      index < 20

/-- **`log_bin` writes `x`.** -/
structure SendsBinary (l : Logger) (x : ℕ) : Prop where
  /-- It sends the binary numeral. -/
  logBin : ∃ ds, IsNumeral 2 x ds ∧
    ∀ buffer, l.logBin buffer x = .ok (ds.map fun d ↦ ⟨l.port, digitAscii d⟩)
  /-- A round that has a digit writes it inside the buffer. -/
  binInside : ∀ buffer x' index buffer',
    Loop.Visits (digitsBody 20 2 binDigit) (x, 0, buffer) (x', index, buffer') → 0 < x' →
      index < 20

/-! ## What they send -/

variable {l : Logger} {len base x index : ℕ} {digit : ℕ → UInt8} {buffer buffer' : ℕ → UInt8}

/-- Only the characters that are sent matter. -/
theorem sendDown_congr {n : ℕ} (h : ∀ i < n, buffer' i = buffer i) :
    l.sendDown buffer' n = l.sendDown buffer n := by
  induction n with
  | zero => rfl
  | succ n ih =>
    rw [sendDown, sendDown, h n (Nat.lt_succ_self n), ih fun i hi ↦ h i (Nat.lt_succ_of_lt hi)]

/-- **Digits that fit into the buffer** are sent before what was there, in reverse order. -/
theorem foldlM_push (l : Logger) (digit : ℕ → UInt8) {ds : List ℕ} :
    ∀ (index : ℕ) (buffer : ℕ → UInt8), index + ds.length ≤ len →
      ∃ buffer', ds.foldlM (fun s d ↦ push len (digit d) s) (index, buffer)
          = .ok (index + ds.length, buffer') ∧
        l.sendDown buffer' (index + ds.length) =
          ds.reverse.map (fun d ↦ ⟨l.port, digit d⟩) ++ l.sendDown buffer index := by
  induction ds with
  | nil => exact fun _ _ _ ↦ ⟨_, rfl, rfl⟩
  | cons d ds ih =>
    intro index buffer h
    rw [List.length_cons] at h ⊢
    have hpush : push len (digit d) (index, buffer)
        = .ok (index + 1, Function.update buffer index (digit d)) := if_pos (by omega)
    obtain ⟨buffer', hfold, hsend⟩ :=
      ih (index + 1) (Function.update buffer index (digit d)) (by omega)
    have hlen : index + (ds.length + 1) = index + 1 + ds.length := by omega
    refine ⟨buffer', ?_, ?_⟩
    · rw [List.foldlM_cons, hpush, hlen]
      exact hfold
    · have hbelow : l.sendDown (Function.update buffer index (digit d)) index =
          l.sendDown buffer index :=
        sendDown_congr fun i hi ↦ Function.update_of_ne (Nat.ne_of_lt hi) _ _
      rw [hlen, hsend, sendDown, hbelow, Function.update_self, List.reverse_cons, List.map_append,
        List.append_assoc]
      rfl

/-- **Digits that do not fit** end behind the buffer. -/
theorem foldlM_push_overflow (digit : ℕ → UInt8) {ds : List ℕ} :
    ∀ (index : ℕ) (buffer : ℕ → UInt8), index ≤ len → len < index + ds.length →
      ds.foldlM (fun s d ↦ push len (digit d) s) (index, buffer) = .error .dangling := by
  induction ds with
  | nil => exact fun _ _ hle hlt ↦ absurd hlt (Nat.not_lt_of_le hle)
  | cons d ds ih =>
    intro index buffer hle hlt
    rw [List.length_cons] at hlt
    rw [List.foldlM_cons]
    rcases Nat.lt_or_eq_of_le hle with hin | rfl
    · have hpush : push len (digit d) (index, buffer)
          = .ok (index + 1, Function.update buffer index (digit d)) := if_pos hin
      rw [hpush]
      exact ih (index + 1) _ hin (by omega)
    · have hpush : push index (digit d) (index, buffer) = .error .dangling :=
        if_neg (Nat.lt_irrefl index)
      rw [hpush]
      rfl

/-- **The loop over the digits ends, and stays inside the buffer.** -/
theorem exec_digitsBody (l : Logger) (digit : ℕ → UInt8) (hb : 1 < base)
    (hlen : len < Loop.rounds) (hx : x < base ^ len) (buffer : ℕ → UInt8) :
    ∃ index buffer', Loop.exec (digitsBody len base digit) (x, 0, buffer)
        = .ok (index, buffer') ∧
      l.sendDown buffer' index = (Nat.digits base x).reverse.map fun d ↦ ⟨l.port, digit d⟩ := by
  have hfit : 0 + (Nat.digits base x).length ≤ len := by
    rw [Nat.zero_add]
    exact (Nat.digits_length_le_iff hb x).mpr hx
  obtain ⟨buffer', hfold, hsend⟩ := foldlM_push l digit 0 buffer hfit
  refine ⟨_, buffer', ?_, hsend.trans (List.append_nil _)⟩
  rw [Loop.exec, digitsBody, Digits.run_body hb (by omega)]
  exact hfold

/-- **A number whose digits fit is written as its numeral.** -/
theorem logDigits_eq (l : Logger) (hdigit : ∀ d < base, digit d = digitAscii d) (hb : 1 < base)
    (hlen : len < Loop.rounds) (hx : x < base ^ len) :
    ∃ ds, IsNumeral base x ds ∧ ∀ buffer, l.logDigits len base digit buffer x
      = .ok (ds.map fun d ↦ ⟨l.port, digitAscii d⟩) := by
  by_cases h0 : x = 0
  · subst h0
    refine ⟨[0], (isNumeral_zero_iff hb).mpr rfl, fun buffer ↦ ?_⟩
    rw [logDigits, if_pos rfl]
    rfl
  · refine ⟨_, (isNumeral_iff hb h0).mpr rfl, fun buffer ↦ ?_⟩
    obtain ⟨index, buffer', hexec, hsend⟩ := exec_digitsBody l digit hb hlen hx buffer
    have hascii : l.sendDown buffer' index
        = (Nat.digits base x).reverse.map fun d ↦ ⟨l.port, digitAscii d⟩ := by
      refine hsend.trans (List.map_congr_left fun d hd ↦ ?_)
      rw [hdigit d (Nat.digits_lt_base hb (List.mem_reverse.mp hd))]
    rw [logDigits, if_neg h0, hexec, Exec.ok_bind, ← hascii]
    rfl

/-- **A number with more digits** is not written. -/
theorem logDigits_overflow (l : Logger) (digit : ℕ → UInt8) (hb : 1 < base) {n : ℕ}
    (hn : n < Loop.rounds) (hx : x < base ^ n) (hlen : base ^ len ≤ x) (buffer : ℕ → UInt8) :
    l.logDigits len base digit buffer x = .error .dangling := by
  have h0 : x ≠ 0 := by
    have hpos : 0 < base ^ len := Nat.pow_pos (by omega)
    omega
  have hrounds : (Nat.digits base x).length < Loop.rounds :=
    Nat.lt_of_le_of_lt ((Nat.digits_length_le_iff hb x).mpr hx) hn
  have hmore : len < 0 + (Nat.digits base x).length := by
    rw [Nat.zero_add]
    exact (Nat.lt_digits_length_iff hb x).mpr hlen
  have hexec : Loop.exec (digitsBody len base digit) (x, 0, buffer) = .error .dangling := by
    rw [Loop.exec, digitsBody, Digits.run_body hb hrounds]
    exact foldlM_push_overflow digit 0 buffer (Nat.zero_le len) hmore
  rw [logDigits, if_neg h0, hexec, Exec.error_bind]

/-- **Every digit is written inside the buffer.** -/
theorem visits_index_lt (hb : 1 < base) (hlen : len < Loop.rounds) (hx : x < base ^ len) {x' : ℕ}
    (hv : Loop.Visits (digitsBody len base digit) (x, 0, buffer) (x', index, buffer'))
    (hx' : 0 < x') : index < len := by
  obtain ⟨_, _, hexec, -⟩ := exec_digitsBody ⟨0⟩ digit hb hlen hx buffer
  obtain ⟨m, hrun⟩ := hv.exists_run hexec
  by_contra hge
  have hpush : push len (digit (x' % base)) (index, buffer') = .error .dangling := if_neg hge
  have hbody : digitsBody len base digit (x', index, buffer') = .error .dangling := by
    rw [digitsBody, Digits.body_of_pos hx', hpush, Exec.error_bind]
  cases m with
  | zero => cases hrun
  | succ m =>
    rw [Loop.run_error hbody] at hrun
    cases hrun

/-- The loop gets to every digit that has room. -/
theorem visits_div (x : ℕ) (buffer : ℕ → UInt8) (hb : 1 < base) : ∀ {i : ℕ}, i ≤ len →
    base ^ i ≤ x → ∃ buffer', Loop.Visits (digitsBody len base digit) (x, 0, buffer)
      (x / base ^ i, i, buffer') := by
  intro i
  induction i with
  | zero =>
    intro _ _
    rw [pow_zero, Nat.div_one]
    exact ⟨buffer, .refl⟩
  | succ i ih =>
    intro hi hx
    have hpow : base ^ i ≤ x := (Nat.pow_le_pow_right (by omega) (Nat.le_succ i)).trans hx
    obtain ⟨buffer', hv⟩ := ih (Nat.le_of_succ_le hi) hpow
    have hpos : 0 < x / base ^ i := Nat.div_pos hpow (Nat.pow_pos (by omega))
    have hpush : push len (digit (x / base ^ i % base)) (i, buffer')
        = .ok (i + 1, Function.update buffer' i (digit (x / base ^ i % base))) := if_pos hi
    have hbody : digitsBody len base digit (x / base ^ i, i, buffer') = .ok (.inl
        (x / base ^ (i + 1), i + 1, Function.update buffer' i (digit (x / base ^ i % base)))) := by
      rw [digitsBody, Digits.body_of_pos hpos, hpush, Exec.ok_bind, Nat.div_div_eq_div_mul,
        ← pow_succ]
    exact ⟨_, hv.step hbody⟩

/-- **The digits are written inside the buffer exactly when they fit.** -/
theorem inside_iff (x : ℕ) (digit : ℕ → UInt8) (hb : 1 < base) (hlen : len < Loop.rounds) :
    (∀ buffer x' index buffer',
      Loop.Visits (digitsBody len base digit) (x, 0, buffer) (x', index, buffer') → 0 < x' →
        index < len) ↔ x < base ^ len := by
  constructor
  · intro h
    by_contra! hx
    obtain ⟨buffer', hv⟩ := visits_div x (fun _ ↦ 0) hb (Nat.le_refl len) hx
    have hpos : 0 < x / base ^ len := Nat.div_pos hx (Nat.pow_pos (by omega))
    exact Nat.lt_irrefl len (h _ _ _ _ hv hpos)
  · exact fun hx _ _ _ _ hv hx' ↦ visits_index_lt hb hlen hx hv hx'

/-! ## `log` and `log_hex` -/

theorem decDigit_eq : ∀ d < 10, decDigit d = digitAscii d := by decide

theorem hexDigit_eq : ∀ d < 16, hexDigit d = digitAscii d := by decide

/-- **64 bits fit**, in decimal and in hexadecimal. -/
theorem sendsNumerals (l : Logger) (hx : x < 2 ^ 64) : l.SendsNumerals x := by
  have hdec : x < 10 ^ 30 := hx.trans (by decide)
  have hhex : x < 16 ^ 20 := hx.trans (by decide)
  have hrounds : 30 < Loop.rounds := by decide
  have hrounds' : 20 < Loop.rounds := by decide
  exact
    { log := logDigits_eq l decDigit_eq (by decide) hrounds hdec
      logHex := logDigits_eq l hexDigit_eq (by decide) hrounds' hhex
      logInside := (inside_iff x decDigit (by decide) hrounds).mpr hdec
      hexInside := (inside_iff x hexDigit (by decide) hrounds').mpr hhex }

/-- The largest number. -/
theorem sendsNumerals_max : (2 ^ 64 - 1 < 2 ^ 64) ∧ (⟨0x3F8⟩ : Logger).SendsNumerals (2 ^ 64 - 1) :=
  ⟨by decide, sendsNumerals ⟨0x3F8⟩ (by decide)⟩

/-! ## `log_bin` -/

theorem binDigit_eq : ∀ d < 2, binDigit d = digitAscii d := by decide

/-- **20 bits fit**, and no more. -/
theorem sendsBinary_iff (l : Logger) (x : UInt64) :
    l.SendsBinary x.toNat ↔ x.toNat < 2 ^ 20 := by
  have hb : 1 < 2 := by decide
  have hrounds : 20 < Loop.rounds := by decide
  have hinside := inside_iff x.toNat binDigit hb hrounds
  refine ⟨fun h ↦ hinside.mp h.binInside, fun hx ↦ ⟨?_, hinside.mpr hx⟩⟩
  exact logDigits_eq l binDigit_eq hb hrounds hx

/-- `2 ^ 20`, with its 21 digits, is the smallest number that is written behind the buffer. -/
theorem logBin_two_pow_twenty : (∀ buffer, (⟨0x3F8⟩ : Logger).logBin buffer (2 ^ 20)
    = .error .dangling) ∧ ¬(⟨0x3F8⟩ : Logger).SendsBinary (2 ^ 20) := by
  have hlog : ∀ buffer, (⟨0x3F8⟩ : Logger).logBin buffer (2 ^ 20) = .error .dangling :=
    logDigits_overflow ⟨0x3F8⟩ binDigit (by decide)
      (show 64 < Loop.rounds by decide) (by decide) (by decide)
  refine ⟨hlog, fun h ↦ ?_⟩
  obtain ⟨ds, -, hds⟩ := h.logBin
  have hok := hds fun _ ↦ 0
  rw [hlog] at hok
  cases hok

/-! ## `log(int)` -/

theorem intDigit_natCast : ∀ d < 10, intDigit (d : ℕ) = decDigit d := by decide

/-- A round on a number that is not negative. -/
theorem intBody_natCast : ∀ s : ℕ × ℕ × (ℕ → UInt8), intBody (Prod.map Nat.cast id s)
    = (digitsBody 100 10 decDigit s).map (Sum.map (Prod.map Nat.cast id) id) := by
  rintro ⟨n, s⟩
  rcases Nat.eq_zero_or_pos n with rfl | hn
  · rfl
  · have hpos : (0 : ℤ) < n := Int.natCast_pos.mpr hn
    have hdigit : intDigit ((n : ℤ).tmod 10) = decDigit (n % 10) :=
      intDigit_natCast (n % 10) (Nat.mod_lt n (by decide))
    have hbody : intBody (n, s)
        = (push 100 (decDigit (n % 10)) s >>= fun s ↦ .ok (.inl ((n : ℤ).tdiv 10, s))) :=
      hdigit ▸ if_pos hpos
    rw [Prod.map_apply, id_eq, hbody, digitsBody, Digits.body_of_pos hn]
    cases push 100 (decDigit (n % 10)) s <;> rfl

/-- **On a number that is not negative**, the sign does not matter. -/
theorem logInt_natCast (l : Logger) (buffer : ℕ → UInt8) (n : ℕ) :
    l.logInt buffer n = l.logDigits 100 10 decDigit buffer n := by
  have hexec : Loop.exec intBody ((n : ℤ), 0, buffer)
      = Loop.exec (digitsBody 100 10 decDigit) (n, 0, buffer) :=
    Loop.run_map intBody_natCast Loop.rounds (n, 0, buffer)
  by_cases h0 : n = 0
  · rw [h0]
    rfl
  · rw [logInt, if_neg (Int.natCast_ne_zero.mpr h0), logDigits, if_neg h0, hexec]

/-- **Of a negative number nothing is sent.** -/
theorem logInt_of_neg (l : Logger) (buffer : ℕ → UInt8) {x : ℤ} (hx : x < 0) :
    l.logInt buffer x = .ok [] := by
  have hbody : intBody (x, 0, buffer) = .ok (.inr (0, buffer)) := if_neg (by omega)
  rw [logInt, if_neg (by omega), Loop.exec_inr hbody]
  rfl

end Logger

end Chisaka.Serial
