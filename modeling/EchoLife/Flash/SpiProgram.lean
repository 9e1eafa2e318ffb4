import EchoLife.Base.Buffer
import EchoLife.Base.Word

/-!
`spi_flash_write`: the messages its loops send to a serial flash chip, and what the chip makes of
them. SST parts are programmed by auto address increment, a byte or a word at a time; Atmel and
AMD parts, whose branches are the same, by page programs cut at the page boundary and at the size
of the message memory. Each message is put together in `wbuf[64]`. Waiting for the status register
is left out.
-/

namespace EchoLife.Flash

open Buffer List Option Word

inductive SpiOpcode
  | wren
  | wrdi
  | prog
  | aai
  | wordAai
  deriving DecidableEq

/-- An opcode, three address bytes if it has them, and `count` bytes of data. -/
structure SpiMessage where
  opcode : SpiOpcode
  address : Option Nat
  count : Nat
  data : Nat → UInt8

/-- The message lies within `wbuf`, and a page program within its page. -/
def SpiMessage.Sound (m : SpiMessage) : Prop :=
  1 + (if m.address.isSome then 3 else 0) + m.count ≤ 64 ∧
    (m.opcode = .prog → m.address.getD 0 % 256 + m.count ≤ 256)

inductive SpiFamily
  | sst
  | atmel
  | amd
  deriving DecidableEq

/-- The controllers, whose `spiMsgData` differ in size. -/
inductive SpiController
  | bcm6338
  | bcm6358

/-- `sizeof(SPI->spiMsgData)`. -/
def SpiController.spiMsgData : SpiController → Nat
  | .bcm6338 => 63
  | .bcm6358 => 0x21e

/-- `evenWords`: the chip ignores the lowest address bit of a word program. -/
structure SpiPart where
  family : SpiFamily
  sstAaiWordProgram : Bool
  controller : SpiController
  evenWords : Bool

/-! ### The chip -/

structure SpiChip where
  mem : Nat → UInt8
  enabled : Bool
  aai : Option Nat

def programRun (mem : Nat → UInt8) (a n : Nat) (data : Nat → UInt8) : Nat → UInt8 :=
  blit mem a n (fun i => mem (a + i) &&& data i)

def programPage (mem : Nat → UInt8) (a n : Nat) (data : Nat → UInt8) : Nat → UInt8 :=
  fun x =>
    let i := (x + (256 - a % 256)) % 256
    if x / 256 = a / 256 ∧ i < n then mem x &&& data i else mem x

namespace SpiPart

variable (part : SpiPart)

def firstCell (a : Nat) : Nat :=
  if part.family = .sst ∧ part.sstAaiWordProgram ∧ part.evenWords then a / 2 * 2 else a

def receive (c : SpiChip) (m : SpiMessage) : SpiChip :=
  match m.opcode with
  | .wren => { c with enabled := true }
  | .wrdi => { c with enabled := false, aai := none }
  | .prog =>
    if c.enabled then
      { c with
        mem := programPage c.mem (m.address.getD 0) m.count m.data, enabled := false }
    else c
  | .aai | .wordAai =>
    let a := c.aai.getD (part.firstCell (m.address.getD 0))
    if c.enabled then
      { c with mem := programRun c.mem a m.count m.data, aai := some (a + m.count) }
    else c

/-! ### The driver -/

def width : Nat :=
  if part.sstAaiWordProgram then 2 else 1

def maxwrite (dst : Nat) (nbytes : Int) : Nat :=
  min (min nbytes.toNat (part.controller.spiMsgData - 4)) (256 - dst % 256)

variable (dst : Nat) (buf : Nat → UInt8)

section
variable (pos : Nat) (nbytes : Int)

/-- The bytes that a turn takes at `pbuf - buf = pos`. In the page loops `dst` moves along with
`pbuf`. -/
def taken : Nat :=
  if part.family = .sst then part.width else part.maxwrite (dst + pos) nbytes

def turn : List SpiMessage :=
  if part.family = .sst then
    [⟨if part.sstAaiWordProgram then .wordAai else .aai,
      if pos = 0 then some (dst % 2 ^ 24) else none, part.taken dst pos nbytes, view buf pos⟩]
  else
    [⟨.wren, none, 0, buf⟩,
      ⟨.prog, some ((dst + pos) % 2 ^ 24), part.taken dst pos nbytes, view buf pos⟩]

/-- `while (nbytes)`: the messages and `pbuf - buf` at the end. -/
def loop : Nat → Nat → Int → Option (List SpiMessage × Nat)
  | 0, _, _ => none
  | fuel + 1, pos, nbytes =>
    if nbytes = 0 then some ([], pos)
    else
      (loop fuel (pos + part.taken dst pos nbytes)
        (s32 (nbytes - part.taken dst pos nbytes))).map
          (fun later => (part.turn dst buf pos nbytes ++ later.1, later.2))

def spiFlashWrite (fuel n : Nat) : Option (List SpiMessage × Nat) :=
  if part.family = .sst then
    (part.loop dst buf fuel 0 n).map
      (fun sent => (⟨.wren, none, 0, buf⟩ :: sent.1 ++ [⟨.wrdi, none, 0, buf⟩], sent.2))
  else part.loop dst buf fuel 0 n

/-- The write ends, its messages are sound, put the `n` source bytes at their place and change no
other byte. -/
def Covers (n : Nat) (mem : Nat → UInt8) : Prop :=
  ∃ fuel sent, part.spiFlashWrite dst buf fuel n = some (sent, n) ∧
    (∀ m ∈ sent, m.Sound) ∧
    (sent.foldl part.receive ⟨mem, false, none⟩).mem = blit mem (dst % 2 ^ 24) n buf

def Divides : Prop :=
  part.family = .sst → part.sstAaiWordProgram → nbytes % 2 = 0

def ShortChunks : Prop :=
  part.family = .sst ∨ part.controller.spiMsgData ≤ 64 ∨ nbytes ≤ 60 ∨
    (256 - dst % 256 ≤ 60 ∧ nbytes ≤ 60 + (256 - dst % 256 : Nat))

end

variable {part dst buf} {mem : Nat → UInt8} {a n pos k fuel : Nat} {nbytes : Int}

/-! ### One turn -/

private theorem programRun_erased (herased : ∀ i < n, mem (a + i) = 0xFF) (h : pos + k ≤ n) :
    programRun (blit mem a pos buf) (a + pos) k (view buf pos) = blit mem a (pos + k) buf := by
  rw [← blit_blit_append]
  funext x
  simp only [programRun]
  by_cases hx : a + pos ≤ x ∧ x < a + pos + k
  · have hcell : blit mem a pos buf (a + pos + (x - (a + pos))) = 0xFF := by
      rw [blit_outside _ _ (by omega)]
      have hi := herased (x - a) (by omega)
      rwa [show a + (x - a) = a + pos + (x - (a + pos)) by omega] at hi
    rw [blit_inside _ _ hx.1 hx.2, blit_inside _ _ hx.1 hx.2, hcell]
    exact UInt8.neg_one_and
  · rw [blit_outside (blit mem a pos buf) _ (by omega),
      blit_outside (blit mem a pos buf) _ (by omega)]

private theorem programPage_inside (data : Nat → UInt8) (h : a % 256 + n ≤ 256) :
    programPage mem a n data = programRun mem a n data := by
  funext x
  simp only [programPage, programRun]
  by_cases hx : a ≤ x ∧ x < a + n
  · have hi : (x + (256 - a % 256)) % 256 = x - a := by omega
    rw [blit_inside _ _ hx.1 hx.2, hi, if_pos (by omega), Nat.add_sub_cancel' hx.1]
  · rw [blit_outside _ _ (by omega), if_neg (by omega)]

theorem taken_bounds (dst pos : Nat) (h : 0 < nbytes) (hdivides : part.Divides nbytes) :
    0 < part.taken dst pos nbytes ∧ part.taken dst pos nbytes ≤ nbytes ∧
      part.Divides (nbytes - part.taken dst pos nbytes) ∧
      (part.family ≠ .sst → (dst + pos) % 256 + part.taken dst pos nbytes ≤ 256) := by
  by_cases hfamily : part.family = .sst
  · have hword := hdivides hfamily
    simp only [taken, Divides, hfamily, width, if_true, ne_eq, not_true_eq_false]
    cases h : part.sstAaiWordProgram <;> simp [h] at hword ⊢ <;> omega
  · simp only [taken, Divides, hfamily, maxwrite, if_false]
    cases part.controller <;> simp [SpiController.spiMsgData] <;> omega

/-- The chip after `pos` bytes from `a` on; an auto increment also keeps the next address. -/
structure Programmed (part : SpiPart) (buf mem : Nat → UInt8) (a pos : Nat)
    (c : SpiChip) : Prop where
  mem : c.mem = blit mem a pos buf
  enabled : part.family = .sst → c.enabled = true
  aai : part.family = .sst → c.aai = if pos = 0 then none else some (a + pos)

theorem Programmed.turn {c : SpiChip} (hc : Programmed part buf mem a pos c)
    (ha : part.firstCell (dst % 2 ^ 24) = a) (hn : dst % 2 ^ 24 + n ≤ 2 ^ 24)
    (herased : ∀ i < n, mem (a + i) = 0xFF) (hleft : 0 < nbytes) (hsum : pos + nbytes = n)
    (hdivides : part.Divides nbytes) :
    Programmed part buf mem a (pos + part.taken dst pos nbytes)
      ((part.turn dst buf pos nbytes).foldl part.receive c) := by
  obtain ⟨hsome, hmost, -, hpage⟩ := taken_bounds dst pos hleft hdivides
  have hprogram : programRun _ _ _ (view buf pos) = _ :=
    programRun_erased herased (by omega : pos + part.taken dst pos nbytes ≤ n)
  rw [SpiPart.turn]
  by_cases hfamily : part.family = .sst
  · have hstart : c.aai.getD (part.firstCell
        ((if pos = 0 then some (dst % 2 ^ 24) else none).getD 0)) = a + pos := by
      rw [hc.aai hfamily]
      by_cases hpos : pos = 0
      · rw [if_pos hpos, if_pos hpos, hpos]
        exact ha
      · rw [if_neg hpos]
        rfl
    rw [if_pos hfamily]
    cases part.sstAaiWordProgram <;>
      simp only [foldl_cons, foldl_nil, receive, hstart, hc.enabled hfamily, hc.mem,
        hprogram, if_true, if_false, Bool.false_eq_true] <;>
      exact ⟨rfl, fun _ => rfl, fun _ => by rw [if_neg (by omega), add_assoc]⟩
  · have hcell : (dst + pos) % 2 ^ 24 = a + pos := by
      rw [firstCell, if_neg fun h => hfamily h.1] at ha
      omega
    have hfits := hpage hfamily
    rw [if_neg hfamily]
    simp only [foldl_cons, foldl_nil, receive, if_true, getD_some, hcell]
    rw [programPage_inside _ (by omega), hc.mem, hprogram]
    exact ⟨rfl, fun h => absurd h hfamily, fun h => absurd h hfamily⟩

/-- The messages of a turn are sound, and the chunks after it short, exactly if
all chunks are. -/
theorem shortChunks_turn (h : 0 < nbytes) (hdivides : part.Divides nbytes) :
    part.ShortChunks (dst + pos) nbytes ↔
      (∀ m ∈ part.turn dst buf pos nbytes, m.Sound) ∧
        part.ShortChunks (dst + (pos + part.taken dst pos nbytes))
          (nbytes - part.taken dst pos nbytes) := by
  obtain ⟨-, hmost, -, hpage⟩ := taken_bounds dst pos h hdivides
  by_cases hfamily : part.family = .sst
  · have hwidth : part.taken dst pos nbytes ≤ 2 := by
      rw [taken, if_pos hfamily, width]
      split <;> omega
    refine iff_of_true (.inl hfamily) ⟨fun m hm => ?_, .inl hfamily⟩
    rw [SpiPart.turn, if_pos hfamily, mem_singleton] at hm
    subst hm
    refine ⟨?_, fun hprog => ?_⟩
    · simp only
      split <;> simp <;> omega
    · split at hprog <;> cases hprog
  · have hfits := hpage hfamily
    have hsound : (∀ m ∈ part.turn dst buf pos nbytes, m.Sound) ↔
        part.taken dst pos nbytes ≤ 60 := by
      rw [SpiPart.turn, if_neg hfamily]
      simp [SpiMessage.Sound]
      omega
    rw [hsound]
    simp only [ShortChunks, taken, hfamily, if_false, false_or, maxwrite]
    cases part.controller <;> simp only [SpiController.spiMsgData] <;> omega

/-! ### The loop -/

private theorem loop_ends (hlo : 0 ≤ nbytes) (hhi : nbytes < 2 ^ 31) (hfuel : nbytes < fuel)
    (hdivides : part.Divides nbytes) : (part.loop dst buf fuel pos nbytes).isSome := by
  induction fuel generalizing pos nbytes with
  | zero => omega
  | succ fuel ih =>
    by_cases hleft : nbytes = 0
    · rw [loop, if_pos hleft]
      rfl
    obtain ⟨hsome, hmost, hkeeps, -⟩ :=
      taken_bounds dst pos (by omega) hdivides
    rw [loop, if_neg hleft, isSome_map, s32_of_range (by omega) (by omega)]
    exact ih (by omega) (by omega) (by omega) hkeeps

theorem loop_odd (hdivides : ¬ part.Divides nbytes) : part.loop dst buf fuel pos nbytes = none := by
  induction fuel generalizing pos nbytes with
  | zero => rfl
  | succ fuel ih =>
    simp only [Divides, not_forall] at hdivides
    obtain ⟨hfamily, hword, hodd⟩ := hdivides
    have htaken : part.taken dst pos nbytes = 2 := by simp [taken, hfamily, width, hword]
    have hparity := s32_emod (nbytes - 2)
    rw [loop, if_neg (by omega), htaken, ih]
    · rfl
    intro h
    have heven := h hfamily hword
    push_cast at heven
    omega

/-- A run that ends has programmed the range, with sound messages exactly if its chunks are short.
-/
theorem loop_programs (ha : part.firstCell (dst % 2 ^ 24) = a) (hn : dst % 2 ^ 24 + n ≤ 2 ^ 24)
    (herased : ∀ i < n, mem (a + i) = 0xFF) {e : Nat} {sent : List SpiMessage} {c : SpiChip}
    (h : part.loop dst buf fuel pos nbytes = some (sent, e)) (hc : Programmed part buf mem a pos c)
    (hlo : 0 ≤ nbytes) (hsum : pos + nbytes = n) (hdivides : part.Divides nbytes) :
    (sent.foldl part.receive c).mem = blit mem a n buf ∧ e = n ∧
      ((∀ m ∈ sent, m.Sound) ↔ part.ShortChunks (dst + pos) nbytes) := by
  induction fuel generalizing pos nbytes sent c with
  | zero => cases h
  | succ fuel ih =>
    by_cases hzero : nbytes = 0
    · have hpos : pos = n := by omega
      rw [loop, if_pos hzero] at h
      cases h
      exact ⟨hpos ▸ hc.mem, hpos, iff_of_true nofun
        (.inr (.inr (.inl (by omega))))⟩
    · have hleft : 0 < nbytes := by omega
      obtain ⟨hsome, hmost, hkeeps, -⟩ := taken_bounds dst pos hleft hdivides
      rw [loop, if_neg hzero, map_eq_some_iff] at h
      obtain ⟨⟨rest, e'⟩, hrest, heq⟩ := h
      cases heq
      rw [s32_of_range (by omega) (by omega)] at hrest
      obtain ⟨hmem, he, hsound⟩ := ih hrest (hc.turn ha hn herased hleft hsum hdivides)
        (by omega) (by push_cast; omega) hkeeps
      refine ⟨by rw [foldl_append]; exact hmem, he, ?_⟩
      rw [forall_mem_append, hsound, ← shortChunks_turn hleft hdivides]

theorem spiFlashWrite_programs (hn : dst % 2 ^ 24 + n ≤ 2 ^ 24)
    (herased : ∀ i < n, mem (part.firstCell (dst % 2 ^ 24) + i) = 0xFF) {e : Nat}
    {sent : List SpiMessage} (h : part.spiFlashWrite dst buf fuel n = some (sent, e))
    (hdivides : part.Divides n) :
    (sent.foldl part.receive ⟨mem, false, none⟩).mem =
        blit mem (part.firstCell (dst % 2 ^ 24)) n buf ∧
      e = n ∧ ((∀ m ∈ sent, m.Sound) ↔ part.ShortChunks dst n) := by
  rw [spiFlashWrite] at h
  split at h
  · rw [map_eq_some_iff] at h
    obtain ⟨⟨inner, e'⟩, hloop, heq⟩ := h
    cases heq
    obtain ⟨hmem, he, hsound⟩ := loop_programs (c := ⟨mem, true, none⟩) rfl hn herased hloop
      ⟨(blit_zero _ _ _).symm, fun _ => rfl, fun _ => rfl⟩ (by omega) (by omega) hdivides
    refine ⟨by simpa [receive] using hmem, he, ?_⟩
    rw [add_zero] at hsound
    rw [← hsound, cons_append, forall_mem_cons, forall_mem_append]
    simp [SpiMessage.Sound]
  next hfamily =>
    exact loop_programs (c := ⟨mem, false, none⟩) rfl hn herased h
      ⟨(blit_zero _ _ _).symm, fun h => absurd h hfamily, fun h => absurd h hfamily⟩
      (by omega) (by omega) hdivides

/-- Exactly these requests are carried out whatever the bytes are: an even count at an even
address in the word loop (at any address if the chip takes odd ones), and chunks that fit `wbuf`
in the page loops. -/
theorem spi_write_covers_iff (part : SpiPart) (dst n : Nat) (hdevice : dst % 2 ^ 24 + n ≤ 2 ^ 24) :
    (∀ buf mem, (∀ i < n, mem (dst % 2 ^ 24 + i) = 0xFF) → part.Covers dst buf n mem) ↔
      part.Divides n ∧ part.ShortChunks dst n ∧
        (part.family = .sst ∧ part.sstAaiWordProgram ∧ part.evenWords → n = 0 ∨ dst % 2 = 0) := by
  constructor
  · intro h
    -- Zeros on an erased chip show every byte that is programmed.
    obtain ⟨fuel, sent, hwrite, hsound, hcells⟩ := h (fun _ => 0) (fun _ => 0xFF) fun _ _ => rfl
    have hdivides : part.Divides n := by
      by_contra hodd
      simp [spiFlashWrite, loop_odd hodd] at hwrite
    obtain ⟨hmem, -, hshort⟩ := @spiFlashWrite_programs _ _ _ (fun _ => 0xFF) _ _ hdevice
      (fun _ _ => rfl) _ _ hwrite hdivides
    refine ⟨hdivides, hshort.mp hsound, fun hwords => ?_⟩
    by_contra hbad
    rw [hmem, firstCell, if_pos hwords] at hcells
    have hcell := congrFun hcells (dst % 2 ^ 24 / 2 * 2)
    rw [blit_inside _ _ (by omega) (by omega), blit_outside _ _ (by omega)] at hcell
    exact absurd hcell (by decide)
  · rintro ⟨hdivides, hshort, hwords⟩ buf mem herased
    have hfirst : part.firstCell (dst % 2 ^ 24) = dst % 2 ^ 24 ∨ n = 0 := by
      rw [firstCell]
      split
      · have := hwords ‹_›
        omega
      · exact .inl rfl
    have hends : (part.spiFlashWrite dst buf (n + 1) n).isSome := by
      have hloop : (part.loop dst buf (n + 1) 0 n).isSome :=
        loop_ends (by omega) (by omega) (by omega) hdivides
      rw [spiFlashWrite]
      split
      · rwa [isSome_map]
      · exact hloop
    obtain ⟨⟨sent, e⟩, hwrite⟩ := isSome_iff_exists.mp hends
    obtain ⟨hmem, rfl, hsound⟩ := spiFlashWrite_programs hdevice
      (fun i hi => by rw [hfirst.resolve_right (by omega)]; exact herased i hi) hwrite hdivides
    refine ⟨_, _, hwrite, hsound.mpr hshort, hmem.trans ?_⟩
    rcases hfirst with hsame | hzero
    · rw [hsame]
    · rw [hzero, blit_zero, blit_zero]

/-- The controller with the small message memory never overruns `wbuf`. -/
theorem amd_write_covered :
    Covers ⟨.amd, false, .bcm6338, false⟩ 77 (fun _ => 7) 300 (fun _ => 0xFF) :=
  (spi_write_covers_iff ⟨.amd, false, .bcm6338, false⟩ 77 300 (by decide)).mpr
    ⟨nofun, .inr (.inl (by decide)), nofun⟩ _ _ (fun _ _ => rfl)

/-- One byte keeps the word loop going for ever, and a page of a hundred bytes is put together in
64. -/
theorem spi_writes_not_covered :
    (∀ fuel, spiFlashWrite ⟨.sst, true, .bcm6358, true⟩ 0 (fun _ => 0) fuel 1 = none) ∧
      ¬ Covers ⟨.amd, false, .bcm6358, false⟩ 0 (fun _ => 0) 100 (fun _ => 0xFF) := by
  constructor
  · intro fuel
    rw [spiFlashWrite, loop_odd fun h => absurd (h rfl rfl) (by decide)]
    rfl
  rintro ⟨fuel, sent, hwrite, hsound, -⟩
  obtain ⟨-, -, hshort⟩ := @spiFlashWrite_programs _ _ _ (fun _ => 0xFF) _ _ (by decide)
    (fun _ _ => rfl) _ _ hwrite nofun
  have hchunks := hshort.mp hsound
  simp [ShortChunks, SpiController.spiMsgData] at hchunks

end SpiPart

end EchoLife.Flash
