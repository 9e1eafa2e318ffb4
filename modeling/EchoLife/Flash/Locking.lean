import EchoLife.Base.Semaphore

/-!
The semaphore of the flash driver (`write_sem_lock` in `cfiflash.c`) as the erase, read
and write functions use it. What they do to the chip is the subject of `Flash.Device`;
here it only matters that they touch it.
-/

namespace EchoLife.Flash

open Semaphore

/-- Whether the call runs in an interrupt, how its waits end, which erase attempts become ready
and which rounds of a write verify. -/
structure LockEnv where
  inInterrupt : Bool
  waits : Waits
  ready : Nat → Nat → Bool
  verified : Nat → Bool

/-- The erase attempts of `cfi_flash_sector_erase_int` from number `i` on. -/
def eraseTries (env : LockEnv) : Nat → Nat → Holder → Holder
  | 0, _, c => c
  | n + 1, i, c =>
    if env.ready c.downs i then c.touch env.inInterrupt
    else eraseTries env n (i + 1) (c.touch env.inInterrupt)

def cfiFlashSectorEraseInt (env : LockEnv) (c : Holder) : Holder :=
  c.guarded env.waits env.inInterrupt (eraseTries env 3 0)

def readBytes (env : LockEnv) : Nat → Holder → Holder
  | 0, c => c
  | numbytes + 1, c => readBytes env numbytes (c.touch env.inInterrupt)

def cfiFlashReadBuf (env : LockEnv) (numbytes : Nat) (c : Holder) : Holder :=
  c.guarded env.waits env.inInterrupt (readBytes env numbytes)

/-- The rounds of `cfi_flash_write_buf` from `i` on: write, compare, and erase to try again. -/
def writeRounds (env : LockEnv) : Nat → Nat → Holder → Holder
  | 0, _, c => c
  | n + 1, i, c =>
    if env.verified i then c.touch env.inInterrupt
    else writeRounds env n (i + 1) (cfiFlashSectorEraseInt env (c.touch env.inInterrupt))

def cfiFlashWriteBuf (env : LockEnv) (c : Holder) : Holder :=
  c.guarded env.waits env.inInterrupt (writeRounds env 3 0)

inductive LockOp where
  | erase (env : LockEnv)
  | read (env : LockEnv) (numbytes : Nat)
  | write (env : LockEnv)

def LockOp.call : LockOp → Nat → Holder
  | .erase env, held => cfiFlashSectorEraseInt env (.start held)
  | .read env numbytes, held => cfiFlashReadBuf env numbytes (.start held)
  | .write env, held => cfiFlashWriteBuf env (.start held)

def LockOp.Balanced : LockOp → Holder → Prop
  | .read _ _, _ => True
  | _, c => c.released = c.acquired

/-- One caller never asks for the semaphore while it holds it, and what returns is balanced. -/
def Disciplined : List LockOp → Nat → Prop
  | [], _ => True
  | op :: rest, held =>
    (op.call held).nested = false ∧
      ((op.call held).blocked = false →
        op.Balanced (op.call held) ∧ Disciplined rest (op.call held).held)

/-- In an interrupt, or the wait is not interrupted and a write verifies in its first round. -/
def LockOp.Orderly : LockOp → Prop
  | .erase env => env.inInterrupt = true ∨ env.waits.signal 0 = false
  | .read _ _ => True
  | .write env => env.inInterrupt = true ∨ env.waits.signal 0 = false ∧ env.verified 0 = true

/-! ### Bodies that leave the semaphore alone -/

theorem eraseTries_quiet (env : LockEnv) (n i : Nat) :
    Quiet env.inInterrupt (eraseTries env n i) := by
  induction n generalizing i with
  | zero => exact quiet_id _
  | succ n ih =>
    intro c
    unfold eraseTries
    split
    · exact quiet_touch env.inInterrupt c
    · exact (quiet_touch env.inInterrupt).comp (ih (i + 1)) c

theorem readBytes_quiet (env : LockEnv) (numbytes : Nat) :
    Quiet env.inInterrupt (readBytes env numbytes) := by
  induction numbytes with
  | zero => exact quiet_id _
  | succ numbytes ih => exact (quiet_touch env.inInterrupt).comp ih

variable {c : Holder} {extra : Nat}

section
variable {env : LockEnv}

private theorem eraseInt_interrupt (hirq : env.inInterrupt = true) :
    cfiFlashSectorEraseInt env = eraseTries env 3 0 := by
  funext c
  simp only [cfiFlashSectorEraseInt, Holder.guarded, hirq, if_true]

theorem writeRounds_quiet (hirq : env.inInterrupt = true) (n i : Nat) :
    Quiet env.inInterrupt (writeRounds env n i) := by
  induction n generalizing i with
  | zero => exact quiet_id _
  | succ n ih =>
    have herase : Quiet env.inInterrupt (cfiFlashSectorEraseInt env) := by
      rw [eraseInt_interrupt hirq]
      exact eraseTries_quiet env 3 0
    intro c
    unfold writeRounds
    split
    · exact quiet_touch env.inInterrupt c
    · exact (((quiet_touch env.inInterrupt).comp herase).comp (ih (i + 1))) c

/-! ### A write that has to try again -/

private theorem guarded_nested_mono {body : Holder → Holder}
    (hbody : ∀ c, c.nested = true → (body c).nested = true) (h : c.nested = true) :
    (c.guarded env.waits env.inInterrupt body).nested = true := by
  unfold Holder.guarded
  split
  · exact hbody c h
  · rw [Holder.up_nested]
    exact hbody _ (Holder.down_nested_mono h)

private theorem eraseInt_nested_mono (h : c.nested = true) :
    (cfiFlashSectorEraseInt env c).nested = true := by
  apply guarded_nested_mono _ h
  intro c hc
  rw [((eraseTries_quiet env 3 0).settled c).nested, hc]

private theorem writeRounds_nested_mono (n i : Nat) (h : c.nested = true) :
    (writeRounds env n i c).nested = true := by
  have htouch (c : Holder) (hc : c.nested = true) : (c.touch env.inInterrupt).nested = true := by
    rw [((quiet_touch env.inInterrupt).settled c).nested, hc]
  induction n generalizing i c with
  | zero => exact h
  | succ n ih =>
    unfold writeRounds
    split
    · exact htouch c h
    · exact ih (i + 1) (eraseInt_nested_mono (htouch c h))

private theorem eraseInt_nested (hirq : env.inInterrupt = false) (hblocked : c.blocked = false)
    (hheld : c.held ≠ 0) : (cfiFlashSectorEraseInt env c).nested = true := by
  simp only [cfiFlashSectorEraseInt, Holder.guarded, hirq, Bool.false_eq_true, if_false]
  rw [Holder.up_nested, ((eraseTries_quiet env 3 0).settled _).nested]
  exact Holder.down_nested hblocked hheld

/-- Releases are ahead of acquisitions by at least `extra`, with nothing held. -/
structure Ahead (extra : Nat) (c : Holder) : Prop where
  held : c.held = 0
  blocked : c.blocked = false
  nested : c.nested = false
  ahead : c.acquired + extra ≤ c.released

theorem Ahead.touch (h : Ahead extra c) : Ahead extra (c.touch env.inInterrupt) := by
  obtain ⟨exposed, hresult, _⟩ := quiet_touch env.inInterrupt c
  rw [hresult]
  exact ⟨h.held, h.blocked, h.nested, h.ahead⟩

theorem Ahead.eraseInt (hirq : env.inInterrupt = false)
    (h : Ahead extra c) : Ahead extra (cfiFlashSectorEraseInt env c) := by
  have hahead := h.ahead
  unfold cfiFlashSectorEraseInt
  rw [hirq]
  cases hsignal : env.waits.signal c.downs with
  | false =>
    obtain ⟨hsettled, _⟩ :=
      (eraseTries_quiet env 3 0).guarded_granted h.blocked h.held hsignal
    have hbalance := hsettled.balance
    exact ⟨hsettled.held.trans h.held, hsettled.blocked.trans h.blocked,
      hsettled.nested.trans h.nested, by omega⟩
  | true =>
    obtain ⟨hheld, hreleased, hacquired, hnested, hblocked⟩ :=
      (eraseTries_quiet env 3 0).guarded_interrupted h.blocked h.held hsignal
    exact ⟨hheld, hblocked, hnested.trans h.nested, by omega⟩

theorem Ahead.writeRounds (hirq : env.inInterrupt = false) (n i : Nat)
    (h : Ahead extra c) : Ahead extra (writeRounds env n i c) := by
  induction n generalizing i c with
  | zero => exact h
  | succ n ih =>
    unfold Flash.writeRounds
    split
    · exact h.touch
    · exact ih (i + 1) (h.touch.eraseInt hirq)

/-! ### One operation -/

theorem guarded_balanced_iff (env : LockEnv) {body : Holder → Holder}
    (hbody : Quiet env.inInterrupt body) :
    let c := (Holder.start 0).guarded env.waits env.inInterrupt body
    c.nested = false ∧ c.blocked = false ∧ c.held = 0 ∧
      (c.released = c.acquired ↔ env.inInterrupt = true ∨ env.waits.signal 0 = false) := by
  cases hirq : env.inInterrupt with
  | true =>
    have hsettled := hbody.settled (Holder.start 0)
    have hbalance := hsettled.balance
    simp only [Holder.guarded, if_true]
    exact ⟨hsettled.nested, hsettled.blocked, hsettled.held,
      iff_of_true (by simpa [Holder.start] using hbalance) (by simp)⟩
  | false =>
    cases hsignal : env.waits.signal 0 with
    | false =>
      obtain ⟨hsettled, _⟩ := hbody.guarded_granted (c := Holder.start 0) rfl rfl hsignal
      have hbalance := hsettled.balance
      exact ⟨hsettled.nested, hsettled.blocked, hsettled.held,
        iff_of_true (by simpa [Holder.start] using hbalance) (.inr rfl)⟩
    | true =>
      obtain ⟨hheld, hreleased, hacquired, hnested, hblocked⟩ :=
        hbody.guarded_interrupted (c := Holder.start 0) rfl rfl hsignal
      refine ⟨hnested, hblocked, hheld, iff_of_false ?_ (by simp)⟩
      rw [hreleased, hacquired]
      simp [Holder.start]

private theorem guarded_not_exposed (env : LockEnv) {body : Holder → Holder}
    (hbody : Quiet env.inInterrupt body)
    (hwait : env.inInterrupt = true ∨ env.waits.signal 0 = false) :
    ((Holder.start 0).guarded env.waits env.inInterrupt body).exposed = false := by
  cases hirq : env.inInterrupt with
  | true =>
    obtain ⟨exposed, hresult, hkept⟩ := hbody (Holder.start 0)
    simp only [Holder.guarded, if_true, hresult]
    exact hkept rfl (.inl hirq)
  | false =>
    have hsignal := hwait.resolve_left (by simp [hirq])
    exact (hbody.guarded_granted (c := Holder.start 0) rfl rfl hsignal).2 rfl

theorem writeRounds_verified (hverified : env.verified 0 = true) :
    writeRounds env 3 0 = Holder.touch env.inInterrupt := by
  simp only [writeRounds, hverified, if_true]

private theorem write_orderly_iff (hirq : env.inInterrupt = false) :
    let c := cfiFlashWriteBuf env (Holder.start 0)
    (c.nested = false ∧ (c.blocked = false → c.released = c.acquired) ↔
      env.waits.signal 0 = false ∧ env.verified 0 = true) ∧
    (env.waits.signal 0 = false ∧ env.verified 0 = true → c.blocked = false ∧ c.held = 0) := by
  unfold cfiFlashWriteBuf
  cases hsignal : env.waits.signal 0 with
  | true =>
    -- The wait was interrupted: the release at the end is one too many.
    have hdown : (Holder.start 0).down env.waits = { Holder.start 0 with downs := 1 } :=
      Holder.down_interrupted rfl rfl hsignal
    have hrounds : Ahead 0 (writeRounds env 3 0 ((Holder.start 0).down env.waits)) := by
      apply Ahead.writeRounds hirq
      rw [hdown]
      exact ⟨rfl, rfl, rfl, le_refl 0⟩
    simp only [Holder.guarded, hirq, Bool.false_eq_true, if_false]
    rw [Holder.up_eq hrounds.blocked]
    have hahead := hrounds.ahead
    refine ⟨iff_of_false ?_ (by simp), by simp⟩
    rintro ⟨_, hbalanced⟩
    have hequal := hbalanced hrounds.blocked
    simp only at hequal
    omega
  | false =>
    cases hverified : env.verified 0 with
    | true =>
      obtain ⟨hnested, hblocked, hheld, hbalance⟩ :=
        guarded_balanced_iff env (quiet_touch env.inInterrupt)
      rw [writeRounds_verified hverified]
      exact ⟨iff_of_true ⟨hnested, fun _ => hbalance.mpr (.inr hsignal)⟩ (by simp),
        fun _ => ⟨hblocked, hheld⟩⟩
    | false =>
      have hdown : (Holder.start 0).down env.waits =
          { Holder.start 0 with downs := 1, held := 1, acquired := 1 } :=
        Holder.down_granted rfl rfl hsignal
      have hnested : (writeRounds env 3 0 ((Holder.start 0).down env.waits)).nested = true := by
        rw [hdown, writeRounds, if_neg (by simp [hverified])]
        apply writeRounds_nested_mono
        apply eraseInt_nested hirq
        · rfl
        · exact Nat.one_ne_zero
      simp only [Holder.guarded, hirq, Bool.false_eq_true, if_false, Holder.up_nested, hnested]
      simp

end

/-- A caller that holds nothing keeps the discipline exactly if the operation is orderly, and
returns with nothing held. -/
theorem LockOp.call_iff (op : LockOp) :
    ((op.call 0).nested = false ∧ ((op.call 0).blocked = false → op.Balanced (op.call 0)) ↔
      op.Orderly) ∧
    (op.Orderly → (op.call 0).blocked = false ∧ (op.call 0).held = 0) := by
  cases op with
  | erase env =>
    obtain ⟨hnested, hblocked, hheld, hbalance⟩ :=
      guarded_balanced_iff env (eraseTries_quiet env 3 0)
    refine ⟨?_, fun _ => ⟨hblocked, hheld⟩⟩
    rw [LockOp.Orderly, ← hbalance]
    exact ⟨fun h => h.2 hblocked, fun h => ⟨hnested, fun _ => h⟩⟩
  | read env numbytes =>
    obtain ⟨hnested, hblocked, hheld, _⟩ := guarded_balanced_iff env (readBytes_quiet env numbytes)
    exact ⟨iff_of_true ⟨hnested, fun _ => trivial⟩ trivial, fun _ => ⟨hblocked, hheld⟩⟩
  | write env =>
    cases hirq : env.inInterrupt with
    | true =>
      obtain ⟨hnested, hblocked, hheld, hbalance⟩ :=
        guarded_balanced_iff env (writeRounds_quiet hirq 3 0)
      exact ⟨iff_of_true ⟨hnested, fun _ => hbalance.mpr (.inl hirq)⟩ (.inl hirq),
        fun _ => ⟨hblocked, hheld⟩⟩
    | false =>
      have hwrite := write_orderly_iff hirq
      simp only [LockOp.Orderly, hirq, Bool.false_eq_true, false_or]
      exact hwrite

/-- An orderly operation touches the chip only while it holds the semaphore, or in an interrupt; a
read does if its wait is not interrupted. -/
theorem LockOp.not_exposed (op : LockOp) (horderly : op.Orderly)
    (hread : ∀ env numbytes, op = .read env numbytes →
      env.inInterrupt = true ∨ env.waits.signal 0 = false) :
    (op.call 0).exposed = false := by
  cases op with
  | erase env => exact guarded_not_exposed env (eraseTries_quiet env 3 0) horderly
  | read env numbytes =>
    exact guarded_not_exposed env (readBytes_quiet env numbytes) (hread env numbytes rfl)
  | write env =>
    rcases horderly with hirq | ⟨hsignal, hverified⟩
    · exact guarded_not_exposed env (writeRounds_quiet hirq 3 0) (.inl hirq)
    · refine guarded_not_exposed env ?_ (.inr hsignal)
      rw [writeRounds_verified hverified]
      exact quiet_touch env.inInterrupt

/-- Over every sequence of operations, a caller never asks for the semaphore while it holds it,
and every erase and write that returns has released as often as it acquired, exactly if all
operations are orderly. -/
theorem flash_lock_discipline_iff (ops : List LockOp) :
    Disciplined ops 0 ↔ ∀ op ∈ ops, op.Orderly := by
  induction ops with
  | nil => simp [Disciplined]
  | cons op rest ih =>
    obtain ⟨hiff, hreturns⟩ := op.call_iff
    rw [List.forall_mem_cons, ← ih]
    constructor
    · rintro ⟨hnested, hcall⟩
      have horderly : op.Orderly := hiff.mp ⟨hnested, fun hblocked => (hcall hblocked).1⟩
      obtain ⟨hblocked, hheld⟩ := hreturns horderly
      have hrest := (hcall hblocked).2
      rw [hheld] at hrest
      exact ⟨horderly, hrest⟩
    · rintro ⟨horderly, hrest⟩
      obtain ⟨hnested, hbalanced⟩ := hiff.mpr horderly
      refine ⟨hnested, fun hblocked => ⟨hbalanced hblocked, ?_⟩⟩
      rw [(hreturns horderly).2]
      exact hrest

/-- No signals, no interrupt; `first` says whether the first round verifies. The holder's wait for
itself does not end. -/
def calmEnv (first : Bool) : LockEnv where
  inInterrupt := false
  waits := ⟨fun _ => false, fun _ => .blocked⟩
  ready := fun _ _ => true
  verified := fun i => i != 0 || first

def signalEnv : LockEnv :=
  { calmEnv true with waits := ⟨fun _ => true, fun _ => .interrupted⟩ }

/-- A write whose first round does not verify waits for itself. A wait that a signal ends is
followed by a release all the same. -/
theorem retry_deadlocks_and_signal_releases :
    ((LockOp.write (calmEnv false)).call 0).nested = true ∧
    ((LockOp.write (calmEnv false)).call 0).blocked = true ∧
    ¬ Disciplined [.write (calmEnv false)] 0 ∧
    ((LockOp.erase signalEnv).call 0).acquired = 0 ∧
    ((LockOp.erase signalEnv).call 0).released = 1 ∧
    ¬ Disciplined [.erase signalEnv] 0 := by
  refine ⟨rfl, rfl, ?_, rfl, rfl, ?_⟩
  · rintro ⟨hnested, _⟩
    cases hnested
  · rintro ⟨_, hcall⟩
    cases (hcall rfl).1

end EchoLife.Flash
