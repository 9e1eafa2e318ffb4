import EchoLife.Flash.ScratchPad

/-!
The pad as a list of tokens. A token satisfies by construction what every walk over the pad tests
for, so a pad that holds tokens is read the same way by all three walks, although they test and
count differently.
-/

namespace EchoLife.Flash

open Buffer CString List Word

variable {left right : Nat → UInt8}

structure TokenName where
  chars : List UInt8
  nul_free : 0 ∉ chars
  deriving DecidableEq

/-- A name that is stored in full and that the walks recognise. -/
def TokenName.Storable (name : TokenName) : Prop :=
  name.chars.length ≤ 15 ∧ 65 ≤ CString.buffer name.chars 0 ∧ CString.buffer name.chars 0 ≤ 122

structure Token where
  name : TokenName
  data : List UInt8
  storable : name.Storable
  data_pos : 0 < data.length
  data_lt : data.length < 8140

def Token.size (t : Token) : Nat :=
  spTokenSize + skipLen t.data.length

theorem skipLen_natCast (n : Nat) : skipLen n = (n + 3) / 4 * 4 := by
  simp only [skipLen]
  omega

/-- A token takes a whole number of words, with room for its header and its data. -/
theorem Token.size_bounds (t : Token) :
    24 ≤ t.size ∧ spTokenSize + t.data.length ≤ t.size ∧ t.size % 4 = 0 := by
  have hpos := t.data_pos
  simp only [Token.size, skipLen_natCast, spTokenSize]
  omega

inductive Laid (pBuf : Nat → UInt8) : Nat → List Token → Nat → Prop
  | nil (p : Nat) : Laid pBuf p [] p
  | cons {p e : Nat} {t : Token} {rest : List Token}
      (hname : ∀ i, i < 16 → pBuf (p + i) = CString.buffer t.name.chars i)
      (hlen : be32 pBuf (p + 16) = t.data.length)
      (hdata : slice pBuf (p + 20) t.data.length = t.data)
      (hrest : Laid pBuf (p + t.size) rest e) : Laid pBuf p (t :: rest) e

section

variable {pBuf : Nat → UInt8} {p e : Nat} {ts : List Token} (h : Laid pBuf p ts e)
include h

theorem Laid.le : p + 24 * ts.length ≤ e := by
  induction h with
  | nil p => simp
  | @cons p e t rest _ _ _ _ ih =>
    have hsize := t.size_bounds.1
    simp only [length_cons]
    omega

theorem Laid.mod_four (hp : p % 4 = 0) : e % 4 = 0 := by
  induction h with
  | nil p => exact hp
  | @cons p e t rest _ _ _ _ ih =>
    have hsize := t.size_bounds.2.2
    exact ih (by omega)

end

variable {p e : Nat} {ts : List Token} {pBuf : Nat → UInt8}

/-- Tokens are laid wherever their bytes are copied to. -/
theorem Laid.transport {left : Nat → UInt8} (h : Laid left p ts e) (right : Nat → UInt8) (q : Nat)
    (hsame : ∀ i, p + i < e → right (q + i) = left (p + i)) : Laid right q ts (q + (e - p)) := by
  induction h generalizing q with
  | nil p =>
    rw [Nat.sub_self, add_zero]
    exact Laid.nil q
  | @cons p e t rest hname hlen hdata hrest ih =>
    have hsize := t.size_bounds.2.1
    have hend := hrest.le
    simp only [spTokenSize] at hsize
    have hbytes (d : Nat) (hd : d < 20 + t.data.length) : right (q + d) = left (p + d) :=
      hsame d (by omega)
    have htail := ih (q + t.size) (by
      intro i hi
      have := hsame (t.size + i) (by omega)
      rwa [← add_assoc, ← add_assoc] at this)
    have hstop : q + t.size + (e - (p + t.size)) = q + (e - p) := by omega
    rw [hstop] at htail
    refine Laid.cons ?_ ?_ ?_ htail
    · intro i hi
      rw [hbytes i (by omega)]
      exact hname i hi
    · rw [← hlen]
      apply be32_congr
      intro d hd
      have := hbytes (16 + d) (by omega)
      rwa [← add_assoc, ← add_assoc] at this
    · refine (slice_congr ?_).trans hdata
      intro i hi
      have := hbytes (20 + i) (by omega)
      rwa [← add_assoc, ← add_assoc] at this

/-- Only the bytes between the two places matter. -/
theorem Laid.congr (h : Laid left p ts e) (hsame : AgreeOn left right p e) : Laid right p ts e := by
  have hle := h.le
  have hmoved := h.transport right p (by
    intro i hi
    exact (hsame (p + i) (Nat.le_add_right p i) hi).symm)
  rwa [Nat.add_sub_cancel' (by omega)] at hmoved

/-- Tokens laid behind each other are laid together. -/
theorem Laid.append {q : Nat} {first second : List Token} (h : Laid pBuf p first q)
    (h' : Laid pBuf q second e) : Laid pBuf p (first ++ second) e := by
  induction h with
  | nil p => exact h'
  | cons hname hlen hdata _ ih => exact Laid.cons hname hlen hdata (ih h')

def locate (id : TokenName) : Nat → List Token → Option Nat
  | _, [] => none
  | p, t :: rest => if t.name = id then some p else locate id (p + t.size) rest

def lookup (id : TokenName) : List Token → Option (List UInt8)
  | [] => none
  | t :: rest => if t.name = id then some t.data else lookup id rest

theorem lookup_append (id : TokenName) (first second : List Token) :
    lookup id (first ++ second) = (lookup id first).or (lookup id second) := by
  induction first with
  | nil => rfl
  | cons t rest ih =>
    simp only [cons_append, lookup]
    split
    · rfl
    · exact ih

theorem lookup_eq_none_iff (id : TokenName) (ts : List Token) :
    lookup id ts = none ↔ ∀ t ∈ ts, t.name ≠ id := by
  induction ts with
  | nil => simp [lookup]
  | cons t rest ih =>
    simp only [lookup, mem_cons, forall_eq_or_imp]
    split
    next hname =>
      simp [hname]
    next hname =>
      simp [hname, ih]

theorem locate_eq_none_iff (id : TokenName) (p : Nat) (ts : List Token) :
    locate id p ts = none ↔ ∀ t ∈ ts, t.name ≠ id := by
  induction ts generalizing p with
  | nil => simp [locate]
  | cons t rest ih =>
    simp only [locate, mem_cons, forall_eq_or_imp]
    split
    next hname =>
      simp [hname]
    next hname =>
      simp [hname, ih]

/-- The place that is located for a name splits the tokens in front of the first one with that
name. -/
theorem Laid.split {q : Nat}
    {id : TokenName} (h : Laid pBuf p ts e) (hlocate : locate id p ts = some q) :
    ∃ before t after, ts = before ++ t :: after ∧ t.name = id ∧
      (∀ u ∈ before, u.name ≠ id) ∧ Laid pBuf p before q ∧
      Laid pBuf q (t :: after) e := by
  induction h with
  | nil p => simp [locate] at hlocate
  | @cons p e t rest hname hlen hdata hrest ih =>
    simp only [locate] at hlocate
    split at hlocate
    next hid =>
      cases hlocate
      exact ⟨[], t, rest, rfl, hid, by simp, Laid.nil _, Laid.cons hname hlen hdata hrest⟩
    rename_i hid
    obtain ⟨before, u, after, rfl, huid, hbefore, hlow, hhigh⟩ := ih hlocate
    refine ⟨t :: before, u, after, rfl, huid, ?_, Laid.cons hname hlen hdata hlow, hhigh⟩
    exact forall_mem_cons.mpr ⟨hid, hbefore⟩

theorem tokenLenAt_of_be32 {t : Token} (hlen : be32 pBuf (p + 16) = t.data.length) :
    tokenLenAt pBuf p = t.data.length := by
  have hlt := t.data_lt
  simp only [tokenLenAt, tokenNameLen, hlen]
  exact s32_of_range (by omega) (by omega)

section

variable {t : Token} (hname : ∀ i, i < 16 → pBuf (p + i) = CString.buffer t.name.chars i)
include hname

/-- The comparison with a stored name decides whether the names are the same. -/
theorem strncmpEq_stored (id : TokenName) :
    strncmpEq tokenNameLen (view pBuf p) (buffer id.chars) = true ↔ t.name = id := by
  have hshort : t.name.chars.length < tokenNameLen :=
    lt_of_le_of_lt t.storable.1 (by decide)
  rw [strncmpEq_congr (n := tokenNameLen)
    (fun i hi => show view pBuf p i = buffer t.name.chars i from hname i hi),
    strncmpEq_buffer t.name.nul_free id.nul_free hshort]
  constructor
  · cases hn : t.name
    simp_all
  · intro h
    rw [h]

private theorem setGuard_stored (hlen : be32 pBuf (p + 16) = t.data.length) (hp : p < 8192) :
    setGuard 8192 pBuf p = true := by
  have htoken := tokenLenAt_of_be32 hlen
  have hpos := t.data_pos
  have hlt := t.data_lt
  have hfirst : pBuf p = buffer t.name.chars 0 := by
    simpa using hname 0 (by omega)
  have hterminated : strlenLt (view pBuf p) tokenNameLen = true := by
    apply any_eq_true.mpr
    refine ⟨15, by decide, ?_⟩
    rw [show view pBuf p 15 = buffer t.name.chars 15 from
      hname 15 (by omega), buffer_of_le t.storable.1]
    rfl
  simp only [setGuard, htoken, hterminated, hfirst, Bool.and_eq_true, decide_eq_true_eq, and_true]
  exact ⟨⟨⟨t.storable.2, by omega⟩, by omega⟩, by omega⟩

end

section

variable (h : Laid pBuf p ts e)
include h

/-- The loop that measures the pad passes all tokens and stops behind them. -/
theorem usedLenLoop_laid (hend : e ≤ 8192) (hstop : setGuard 8192 pBuf e = false) {rounds : Nat}
    (hrounds : ts.length < rounds) : usedLenLoop 8192 pBuf rounds p = e := by
  induction h generalizing rounds with
  | nil p =>
    cases rounds with
    | zero => omega
    | succ rounds => simp [usedLenLoop, hstop]
  | @cons p e t rest hname hlen hdata hrest ih =>
    cases rounds with
    | zero => omega
    | succ rounds =>
      have hle := hrest.le
      have hsize := t.size_bounds.1
      have hguard := setGuard_stored hname hlen (by omega)
      simp only [usedLenLoop, hguard, if_true, tokenLenAt_of_be32 hlen]
      simp only [length_cons] at hrounds
      exact ih hend hstop (by omega)

/-- The search of the writer finds the first token with the name. -/
private theorem findLoop_laid (id : TokenName) {rounds : Nat} (hrounds : ts.length < rounds) :
    findLoop pBuf id.chars e rounds p = locate id p ts := by
  induction h generalizing rounds with
  | nil p =>
    cases rounds with
    | zero => omega
    | succ rounds => simp [findLoop, locate]
  | @cons p e t rest hname hlen hdata hrest ih =>
    cases rounds with
    | zero => omega
    | succ rounds =>
      have hle := hrest.le
      have hsize := t.size_bounds.1
      have hcompare := strncmpEq_stored hname id
      simp only [length_cons] at hrounds
      simp only [findLoop, locate]
      rw [if_pos (by omega)]
      by_cases hid : t.name = id
      · rw [if_pos (hcompare.mpr hid), if_pos hid]
      · rw [if_neg (fun hsame => hid (hcompare.mp hsame)), if_neg hid, tokenLenAt_of_be32 hlen]
        exact ih (by omega)

/-- So does the search of the reader, which counts the bytes that it has passed. -/
theorem getLoop_laid (hend : e ≤ 8192) (hstop : pBuf e = 0 ∨ tokenLenAt pBuf e = 0) (id : TokenName)
    {rounds usedLen : Nat} (hrounds : ts.length < rounds) (hused : usedLen ≤ p) :
    getLoop 8192 pBuf id.chars rounds usedLen p = locate id p ts := by
  induction h generalizing rounds usedLen with
  | nil p =>
    cases rounds with
    | zero => omega
    | succ rounds =>
      simp only [getLoop, locate]
      rw [if_neg]
      rintro ⟨hbyte, hlen, _⟩
      rcases hstop with hzero | hzero
      · exact hbyte hzero
      · omega
  | @cons p e t rest hname hlen hdata hrest ih =>
    cases rounds with
    | zero => omega
    | succ rounds =>
      have htoken := tokenLenAt_of_be32 hlen
      have hle := hrest.le
      have hsize := t.size_bounds.1
      have hpos := t.data_pos
      have hlt := t.data_lt
      have hcompare := strncmpEq_stored hname id
      have hfirst : pBuf p ≠ 0 := by
        have hchar : pBuf p = buffer t.name.chars 0 := by
          simpa using hname 0 (by omega)
        have hletter := t.storable.2.1
        rw [hchar]
        intro hzero
        rw [hzero] at hletter
        exact absurd hletter (by decide)
      simp only [length_cons] at hrounds
      simp only [getLoop, locate]
      rw [if_pos ⟨hfirst, by omega, by omega, by omega⟩]
      by_cases hid : t.name = id
      · rw [if_pos (hcompare.mpr hid), if_pos hid]
      rw [if_neg (fun hsame => hid (hcompare.mp hsame)), if_neg hid, htoken]
      refine ih hend hstop (by omega) ?_
      simp only [Token.size]
      omega

end

/-- The pad is initialised and holds exactly these tokens, up to `e`, and behind them nothing, or
the record of a deleted token with length 0 that the first call on a new pad may leave. -/
structure PadHolds (pBuf : Nat → UInt8) (ts : List Token) (e : Nat) : Prop where
  magic : hasMagic pBuf = true
  laid : Laid pBuf 32 ts e
  end_lt : e < 8192
  stop : pBuf e = 0 ∨ (e = 32 ∧ be32 pBuf 48 = 0)
  clear : ∀ i, e + 20 ≤ i → i < 8192 → pBuf i = 0
  nodup : (ts.map Token.name).Nodup

theorem hasMagic_congr (h : ∀ i, i < 8 → left i = right i) : hasMagic left = hasMagic right := by
  have hslice : slice left 0 magicNumLen = slice right 0 magicNumLen := by
    apply slice_congr
    intro i hi
    rw [zero_add]
    exact h i hi
  simp only [hasMagic, hslice]

/-- What a pad holds depends on its 8192 bytes only. -/
theorem PadHolds.congr (h : PadHolds left ts e) (hsame : AgreeOn left right 0 8192) :
    PadHolds right ts e := by
  have hbyte (i : Nat) (hi : i < 8192) : right i = left i :=
    (hsame i (Nat.zero_le i) hi).symm
  have hend := h.end_lt
  refine ⟨?_, ?_, hend, ?_, ?_, h.nodup⟩
  · rw [← h.magic]
    exact hasMagic_congr (fun i hi => hbyte i (by omega))
  · exact h.laid.congr (hsame.mono (Nat.zero_le 32) (by omega))
  · rw [hbyte e hend]
    refine h.stop.imp_right ?_
    rintro ⟨he, hzero⟩
    refine ⟨he, ?_⟩
    rw [← hzero]
    exact be32_congr (fun d hd => hbyte (48 + d) (by omega))
  · intro i hlo hhi
    rw [hbyte i hhi]
    exact h.clear i hlo hhi

section

variable (h : PadHolds pBuf ts e)
include h

theorem PadHolds.rounds : ts.length < 8192 := by
  have hle := h.laid.le
  have hend := h.end_lt
  omega

theorem PadHolds.stopped : pBuf e = 0 ∨ tokenLenAt pBuf e = 0 := by
  refine h.stop.imp_right ?_
  rintro ⟨rfl, hzero⟩
  simp only [tokenLenAt, tokenNameLen, hzero]
  rfl

theorem PadHolds.guard_stops : setGuard 8192 pBuf e = false := by
  rcases h.stopped with hzero | hzero
  · simp [setGuard, hzero]
  · simp [setGuard, hzero]

/-- The length that is measured is that of the tokens. -/
theorem PadHolds.padUsedLen_eq : padUsedLen 8192 pBuf = e :=
  usedLenLoop_laid h.laid h.end_lt.le h.guard_stops h.rounds

theorem PadHolds.padFind_eq (id : TokenName) : padFind 8192 pBuf id.chars = locate id 32 ts := by
  simp only [padFind, h.padUsedLen_eq]
  exact findLoop_laid h.laid id h.rounds

end

/-- What `kerSysScratchPadGet` answers for a store that maps a name to data. -/
def answer : Option (List UInt8) → Int × List UInt8
  | none => (-1, [])
  | some data => (data.length, data)

/-- Reading answers with the data of the first token that has the name. -/
theorem PadHolds.readPad_eq (h : PadHolds pBuf ts e) (id : TokenName) :
    readPad 8192 pBuf id.chars = answer (lookup id ts) := by
  have hloop : getLoop 8192 pBuf id.chars (8192 : Int).toNat spHeaderSize
      spHeaderSize = locate id 32 ts :=
    getLoop_laid h.laid h.end_lt.le h.stopped id h.rounds le_rfl
  simp only [readPad, hloop]
  cases hlocate : locate id 32 ts with
  | none =>
    have hnone := (lookup_eq_none_iff id ts).mpr ((locate_eq_none_iff id 32 ts).mp hlocate)
    rw [hnone]
    rfl
  | some q =>
    obtain ⟨before, t, after, rfl, hid, hbefore, _, htoken⟩ :=
      h.laid.split hlocate
    have hfound : lookup id (before ++ t :: after) = some t.data := by
      rw [lookup_append, (lookup_eq_none_iff id before).mpr hbefore]
      simp [lookup, hid]
    cases htoken with
    | cons hname hlen hdata _ =>
      simp only [tokenLenAt_of_be32 hlen, hfound, Int.toNat_natCast, spTokenSize, hdata, answer]

end EchoLife.Flash
