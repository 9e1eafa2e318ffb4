import EchoLife.Base.Buffer
import EchoLife.Base.Word

/-!
The payload of an HTTP packet is replaced in its buffer: what `http_set_appdata` writes, how far
it writes, and what a receiver reads from the packet.
-/

namespace EchoLife.Netfilter.HttpAppdata

open Buffer List Word

/-! ### Fields -/

section
variable (packet : Nat → UInt8)

def ihl : Nat :=
  (packet 0).toNat % 16

def doff : Nat :=
  (packet (4 * ihl packet + 12)).toNat / 16

def headerLen : Nat :=
  4 * ihl packet + 4 * doff packet

def totLen : Nat :=
  beNat packet 2 2

/-- Without a result if the packet ends inside of its headers. -/
def payload : Option (List UInt8) :=
  if headerLen packet ≤ totLen packet then
    some (slice packet (headerLen packet) (totLen packet - headerLen packet))
  else none

/-- The total length and the two checksums. -/
def Adjusted (i : Nat) : Prop :=
  i = 2 ∨ i = 3 ∨ i = 10 ∨ i = 11 ∨ i = 4 * ihl packet + 16 ∨ i = 4 * ihl packet + 17

end

/-- A packet with whole headers, from `skb->data` on. `fragList` has the length of the parts in
other buffers, whose bytes follow in `data` as well. -/
structure Skb where
  data : Nat → UInt8
  len : Nat
  room : Nat
  fragList : Option Nat
  ihl_ge : 5 ≤ ihl data
  doff_ge : 5 ≤ doff data
  headerLen_le : headerLen data ≤ len

/-- What an allocation gives beyond the size asked for, and the two checksums. -/
structure Env where
  skbCopy : Option Nat
  skbCopyExpand : Option Nat
  ipFastCsum : (Nat → UInt8) → Nat
  tcpV4Check : (Nat → UInt8) → Nat

/-! ### The call -/

/-- The bytes, and the end of what has been written. -/
structure Written where
  bytes : Nat → UInt8
  high : Nat

def Written.store (start n : Nat) (src : Nat → UInt8) (w : Written) : Written :=
  ⟨blit w.bytes start n src, max w.high (start + n)⟩

def Written.check (start : Nat) (csum : (Nat → UInt8) → Nat) (w : Written) : Written :=
  let cleared := w.store start 2 fun _ => 0
  cleared.store start 2 (beNatBytes 2 (csum cleared.bytes))

section
variable (env : Env) (text : List UInt8) (skb : Skb)

def roomFor : Option Nat :=
  ((skb.fragList.elim (some skb.room) fun dataLen =>
    env.skbCopy.map (skb.room + dataLen + ·))).bind fun room =>
  if room < text.length then env.skbCopyExpand.map (skb.len + text.length + ·) else some room

/-- The length for `memset` is `len - ihl * 4 + sizeof(struct tcphdr)`. -/
def rewrite : Written :=
  let tcph := 4 * ihl skb.data
  let cleared := Written.store (tcph + 20) (skb.len - tcph + 20) (fun _ => 0) ⟨skb.data, 0⟩
  let copied := cleared.store (tcph + 20) text.length (text.getD · 0)
  let sized := copied.store 2 2 (beNatBytes 2 (tcph + 20 + text.length))
  (sized.check 10 env.ipFastCsum).check (tcph + 16) env.tcpV4Check

/-- With the room that the buffer has then; no result if the call returns 0. -/
def httpSetAppdata : Option (Written × Nat) :=
  (roomFor env text skb).map fun room => (rewrite env text skb, room)

end

structure Consistent (text : List UInt8) (skb : Skb) (result : Written × Nat) : Prop where
  headers : ∀ i < headerLen skb.data, ¬Adjusted skb.data i → result.1.bytes i = skb.data i
  parsed : payload result.1.bytes = some text
  inRoom : result.1.high ≤ result.2

/-! ### What is written -/

variable {w : Written} {start n i : Nat} {src : Nat → UInt8} {csum : (Nat → UInt8) → Nat}

theorem store_outside (h : i < start ∨ start + n ≤ i) : (w.store start n src).bytes i = w.bytes i :=
  blit_outside _ _ h

theorem store_at (h : i < n) : (w.store start n src).bytes (start + i) = src i :=
  blit_at _ _ h

theorem check_outside (h : i < start ∨ start + 2 ≤ i) : (w.check start csum).bytes i = w.bytes i :=
  (store_outside h).trans (store_outside h)

variable {env : Env} {text : List UInt8} {skb : Skb}

theorem rewrite_header (hi : i < 4 * ihl skb.data + 20) (hfield : ¬Adjusted skb.data i) :
    (rewrite env text skb).bytes i = skb.data i := by
  unfold Adjusted at hfield
  unfold rewrite
  rw [check_outside (by omega), check_outside (by omega), store_outside (by omega),
    store_outside (by omega), store_outside (by omega)]

private theorem rewrite_text (hi : i < text.length) :
    (rewrite env text skb).bytes (4 * ihl skb.data + 20 + i) = text.getD i 0 := by
  unfold rewrite
  rw [check_outside (by omega), check_outside (by omega), store_outside (by omega), store_at hi]

private theorem rewrite_slice :
    slice (rewrite env text skb).bytes (4 * ihl skb.data + 20) text.length = text := by
  apply ext_getElem (slice_length _ _ _)
  intro k _ hk
  simp only [slice, getElem_map, getElem_range, rewrite_text hk]
  exact (getElem_eq_getD 0).symm

private theorem rewrite_totLen :
    totLen (rewrite env text skb).bytes = (4 * ihl skb.data + 20 + text.length) % 65536 := by
  have hihl := skb.ihl_ge
  have hbyte : ∀ k < 2, (rewrite env text skb).bytes (2 + k) =
      beNatBytes 2 (4 * ihl skb.data + 20 + text.length) k := by
    intro k hk
    unfold rewrite
    rw [check_outside (by omega), check_outside (by omega), store_at hk]
  simp only [totLen, beNat, hbyte 0 (by omega), hbyte 1 (by omega), beNatBytes]
  simp
  omega

private theorem rewrite_high :
    (rewrite env text skb).high = max (skb.len + 40) (4 * ihl skb.data + 20 + text.length) := by
  have hlen := skb.headerLen_le
  have hihl := skb.ihl_ge
  unfold headerLen at hlen
  simp only [rewrite, Written.check, Written.store]
  omega

private theorem rewrite_headerLen : ihl (rewrite env text skb).bytes = ihl skb.data ∧
    headerLen (rewrite env text skb).bytes = headerLen skb.data := by
  have hge := skb.ihl_ge
  have hihl : ihl (rewrite env text skb).bytes = ihl skb.data := by
    unfold ihl
    rw [rewrite_header (by omega) (by unfold Adjusted; omega)]
  refine ⟨hihl, ?_⟩
  unfold headerLen doff
  rw [hihl, rewrite_header (by omega) (by unfold Adjusted; omega)]

/-- The packet is right exactly if it has no TCP options, its new length fits into 16 bits, and
the room holds the new packet and 40 bytes behind the old one. -/
theorem consistent_iff {result : Written × Nat} (h : httpSetAppdata env text skb = some result) :
    Consistent text skb result ↔
      doff skb.data = 5 ∧ 4 * ihl skb.data + 20 + text.length < 65536 ∧
        4 * ihl skb.data + 20 + text.length ≤ result.2 ∧ skb.len + 40 ≤ result.2 := by
  obtain ⟨room, -, rfl⟩ := Option.map_eq_some_iff.mp h
  have hdoff := skb.doff_ge
  have hlen : headerLen skb.data = 4 * ihl skb.data + 4 * doff skb.data := rfl
  have hhigh : (rewrite env text skb).high = _ := rewrite_high
  constructor
  · rintro ⟨-, hparsed, hroom⟩
    unfold payload at hparsed
    rw [rewrite_headerLen.2, rewrite_totLen] at hparsed
    split at hparsed
    next hle =>
      have hcount := congrArg length (Option.some.inj hparsed)
      rw [slice_length] at hcount
      dsimp only at hroom
      omega
    · cases hparsed
  · rintro ⟨hplain, hfits, hroom, hbehind⟩
    refine ⟨fun i hi => rewrite_header (by omega), ?_, by dsimp only; omega⟩
    unfold payload
    rw [rewrite_headerLen.2, rewrite_totLen, Nat.mod_eq_of_lt hfits, if_pos (by omega), hlen,
      hplain, Nat.add_sub_cancel_left, rewrite_slice]

def sampleData (offset : UInt8) : Nat → UInt8 :=
  fun i => if i = 0 then 0x45 else if i = 32 then offset else 0

private theorem sampleData_sound {offset : UInt8} (h : 80 ≤ offset.toNat) :
    5 ≤ ihl (sampleData offset) ∧ 5 ≤ doff (sampleData offset) ∧
      headerLen (sampleData offset) ≤ 80 := by
  have hlt := offset.toNat_lt
  simp [headerLen, doff, ihl, sampleData]
  omega

def sample (offset : UInt8) (h : 80 ≤ offset.toNat) (room : Nat) : Skb :=
  have hsound := sampleData_sound h
  ⟨sampleData offset, 80, room, none, hsound.1, hsound.2.1, hsound.2.2⟩

def noCopies : Env :=
  ⟨none, none, fun _ => 0, fun _ => 0⟩

theorem plain_packet_consistent : ∃ result,
    httpSetAppdata noCopies [79, 75] (sample 0x50 (by decide) 120) = some result ∧
      Consistent [79, 75] (sample 0x50 (by decide) 120) result :=
  ⟨_, rfl, (consistent_iff rfl).mpr (by decide)⟩

/-- A packet with a time stamp option, in a buffer of its own length: the new length is less than
that of the headers, and the check sums are computed over 40 bytes behind the buffer. -/
theorem stamped_packet_cut : ∃ result,
    httpSetAppdata noCopies [79, 75] (sample 0x80 (by decide) 80) = some result ∧
      ¬Consistent [79, 75] (sample 0x80 (by decide) 80) result := by
  refine ⟨_, rfl, ?_⟩
  intro hconsistent
  cases hconsistent.parsed

end EchoLife.Netfilter.HttpAppdata
