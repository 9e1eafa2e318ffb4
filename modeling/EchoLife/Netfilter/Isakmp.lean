import EchoLife.Base.Run
import EchoLife.Base.Slots
import EchoLife.Board.Jiffies

/-!
The table of ISAKMP sessions. Several hosts of the LAN talk ISAKMP from port 500 of the one
outside address, so a packet from the WAN is given to the host whose initiator cookie it carries.
There is one entry for each host, with the first half of the cookie of its last negotiation, and
a timer that refreshes the connection and frees the entry after a quarter of an hour without
packets.
-/

namespace EchoLife.Netfilter.Isakmp

open Function List Option Run Slots

/-- The initiator cookie of a packet, eight bytes long. `struct isakmp_pkt_hdr` has only the
first four of them, so `word` is all that the helper ever reads. -/
@[ext] structure Cookie where
  word : Nat
  rest : Nat
  deriving DecidableEq

variable {sent : List (Nat × Cookie)}

/-! ### The table -/

def maxVpnConnection : Nat := 64
def refreshTimeout : Nat := 10 * hz
def ctRefreshTimeout : Nat := 13 * hz
def maxTimeoutCount : Nat := 90

/-- `struct _ipsec_table`, with the first word of a cookie; the timer is given by the time at
which it expires, if it is pending. -/
structure Entry where
  initcookie : Nat
  lanIp : Nat
  ct : Option Nat
  timer : Option Nat
  pktRcvd : Nat
  ntimeouts : Nat
  inuse : Bool
  deriving DecidableEq

def Entry.zero : Entry :=
  ⟨0, 0, none, none, 0, 0, false⟩

abbrev Table := Nat → Entry

def searchIpsecEntryByCookie (t : Table) (cookie : Nat) : Option Nat :=
  firstSlot maxVpnConnection (·.initcookie == cookie) t

def searchIpsecEntryByAddr (t : Table) (lanIp : Nat) : Option Nat :=
  firstSlot maxVpnConnection (·.lanIp == lanIp) t

def ipsecAllocEntry (t : Table) : Option Nat :=
  firstSlot maxVpnConnection (!·.inuse) t

/-- `ipsec_alloc_entry` and what the helper puts into the new entry. -/
def freshEntry (now lanIp cookie ct : Nat) : Entry :=
  { Entry.zero with
    initcookie := cookie
    lanIp := lanIp
    ct := some ct
    timer := some (now + refreshTimeout)
    inuse := true }

/-- The entry that an outbound packet is counted in, as it is before it is counted. -/
def outboundEntry (now : Nat) (t : Table) (lanIp cookie ct : Nat) : Option (Nat × Entry) :=
  match searchIpsecEntryByCookie t cookie with
  | some i => some (i, t i)
  | none =>
    match searchIpsecEntryByAddr t lanIp with
    | some i => some (i, { t i with initcookie := cookie, ct := some ct })
    | none => (ipsecAllocEntry t).map (fun i => (i, freshEntry now lanIp cookie ct))

def Entry.count (e : Entry) : Entry :=
  { e with pktRcvd := e.pktRcvd + 1 }

def outbound (now : Nat) (t : Table) (lanIp cookie ct : Nat) : Option Table :=
  (outboundEntry now t lanIp cookie ct).map (fun found => update t found.1 found.2.count)

def inbound (t : Table) (cookie : Nat) : Table :=
  match searchIpsecEntryByCookie t cookie with
  | some i => update t i (t i).count
  | none => t

def redirect (t : Table) (cookie : Nat) : Option Nat :=
  (searchIpsecEntryByCookie t cookie).map (fun i => (t i).lanIp)

def ipsecFreeEntry (e : Entry) : Entry :=
  if e.inuse then .zero else e

def ipsecRefreshCt (now : Nat) (e : Entry) : Entry :=
  if e.pktRcvd ≠ 0 then
    { e with pktRcvd := 0, ntimeouts := 0, timer := some (now + refreshTimeout) }
  else if maxTimeoutCount ≤ e.ntimeouts + 1 then
    ipsecFreeEntry { e with ntimeouts := e.ntimeouts + 1, timer := none }
  else
    { e with ntimeouts := e.ntimeouts + 1, timer := some (now + refreshTimeout) }

def expire (now : Nat) (t : Table) (i : Nat) : Table :=
  if (t i).timer.isSome then update t i (ipsecRefreshCt now (t i)) else t

/-! ### Runs -/

inductive Event where
  | outbound (now lanIp : Nat) (cookie : Cookie) (ct : Nat)
  | inbound (cookie : Cookie)
  | timeout (now index : Nat)

/-- The table, and which hosts have sent which cookies since their entry was freed. -/
structure State where
  table : Table
  sent : List (Nat × Cookie)

def State.empty : State :=
  ⟨fun _ => .zero, []⟩

def stillSent (before after : Entry) (sent : List (Nat × Cookie)) :
    List (Nat × Cookie) :=
  if before.inuse && !after.inuse then sent.filter (fun packet => packet.1 != before.lanIp)
  else sent

def step : Event → State → State
  | .outbound now lanIp cookie ct, s =>
    { table := (outbound now s.table lanIp cookie.word ct).getD s.table
      sent := (lanIp, cookie) :: s.sent }
  | .inbound cookie, s => { s with table := inbound s.table cookie.word }
  | .timeout now i, s =>
    { table := expire now s.table i
      sent := stillSent (s.table i) (expire now s.table i i) s.sent }

/-! ### What one packet and one timeout can do -/

variable {i : Nat} {e : Entry}

/-- An outbound packet is counted in the entry with its cookie, or in that of its host,
which gets the cookie, or in a new one. -/
theorem outboundEntry_cases {now lanIp cookie ct : Nat} {t : Table}
    (h : outboundEntry now t lanIp cookie ct = some (i, e)) :
    i < maxVpnConnection ∧
      ((t i).initcookie = cookie ∧ e = t i ∨
        (∀ j < maxVpnConnection, (t j).initcookie ≠ cookie) ∧
          ((t i).lanIp = lanIp ∧ e = { t i with initcookie := cookie, ct := some ct } ∨
            (∀ j < maxVpnConnection, (t j).lanIp ≠ lanIp) ∧ (t i).inuse = false ∧
              e = freshEntry now lanIp cookie ct)) := by
  unfold outboundEntry at h
  cases hcookie : searchIpsecEntryByCookie t cookie with
  | some k =>
    rw [hcookie] at h
    cases h
    exact ⟨firstSlot_lt hcookie, .inl ⟨by simpa using firstSlot_hit hcookie, rfl⟩⟩
  | none =>
    rw [hcookie] at h
    have hnew : ∀ j < maxVpnConnection, (t j).initcookie ≠ cookie := by
      intro j hj
      simpa using firstSlot_none hcookie hj
    cases haddr : searchIpsecEntryByAddr t lanIp with
    | some k =>
      rw [haddr] at h
      cases h
      exact ⟨firstSlot_lt haddr, .inr ⟨hnew, .inl ⟨by simpa using firstSlot_hit haddr, rfl⟩⟩⟩
    | none =>
      rw [haddr] at h
      obtain ⟨k, hk, hpair⟩ := map_eq_some_iff.mp h
      cases hpair
      refine ⟨firstSlot_lt hk, .inr ⟨hnew, .inr ⟨?_, ?_, rfl⟩⟩⟩
      · intro j hj
        simpa using firstSlot_none haddr hj
      · simpa using firstSlot_hit hk

theorem ipsecRefreshCt_cases (now : Nat) (e : Entry) :
    e.inuse = true ∧ ipsecRefreshCt now e = .zero ∨
      (ipsecRefreshCt now e).inuse = e.inuse ∧ (ipsecRefreshCt now e).lanIp = e.lanIp ∧
        (ipsecRefreshCt now e).initcookie = e.initcookie := by
  unfold ipsecRefreshCt
  split
  · exact .inr ⟨rfl, rfl, rfl⟩
  split
  · cases huse : e.inuse with
    | true => exact .inl ⟨rfl, by simp [ipsecFreeEntry]⟩
    | false => exact .inr (by simp [ipsecFreeEntry])
  · exact .inr ⟨rfl, rfl, rfl⟩

/-! ### What holds in every run -/

/-- The host has sent a cookie that starts with the word. -/
def SentWord (sent : List (Nat × Cookie)) (lanIp word : Nat) : Prop :=
  ∃ cookie, (lanIp, cookie) ∈ sent ∧ cookie.word = word

theorem SentWord.mono {sent sent' : List (Nat × Cookie)} {lanIp word : Nat}
    (h : SentWord sent lanIp word)
    (hsent : ∀ cookie, (lanIp, cookie) ∈ sent → (lanIp, cookie) ∈ sent') :
    SentWord sent' lanIp word := by
  obtain ⟨cookie, hmem, hword⟩ := h
  exact ⟨cookie, hsent cookie hmem, hword⟩

/-- Entries in use have hosts and cookies of their own, the host has sent a cookie with the
word of its entry, and an entry that is not in use belongs to no host. -/
structure Sound (s : State) : Prop where
  apart : ∀ i < maxVpnConnection, ∀ j < maxVpnConnection, (s.table i).inuse = true →
    (s.table j).inuse = true → i ≠ j →
    (s.table i).lanIp ≠ (s.table j).lanIp ∧ (s.table i).initcookie ≠ (s.table j).initcookie
  idle : ∀ i < maxVpnConnection, (s.table i).inuse = false → (s.table i).lanIp = 0
  host : ∀ i < maxVpnConnection, (s.table i).inuse = true → (s.table i).lanIp ≠ 0
  owned : ∀ i < maxVpnConnection, (s.table i).inuse = true →
    SentWord s.sent (s.table i).lanIp (s.table i).initcookie
  inside : ∀ i, (s.table i).timer.isSome = true → i < maxVpnConnection

structure Fits (s : State) (sent : List (Nat × Cookie)) (i : Nat) (e : Entry) : Prop where
  apart : e.inuse = true → ∀ j < maxVpnConnection, j ≠ i → (s.table j).inuse = true →
    (s.table j).lanIp ≠ e.lanIp ∧ (s.table j).initcookie ≠ e.initcookie
  idle : e.inuse = false → e.lanIp = 0
  host : e.inuse = true → e.lanIp ≠ 0
  owned : e.inuse = true → SentWord sent e.lanIp e.initcookie
  rest : ∀ j < maxVpnConnection, j ≠ i → (s.table j).inuse = true →
    SentWord sent (s.table j).lanIp (s.table j).initcookie

variable {s : State}

section

variable (h : Sound s)
include h

/-- An entry that fits may replace any other. -/
theorem Sound.update (hi : i < maxVpnConnection) (hfits : Fits s sent i e) :
    Sound ⟨update s.table i e, sent⟩ := by
  constructor
  · intro j hj k hk hjuse hkuse hne
    dsimp only at hjuse hkuse ⊢
    rcases eq_or_ne j i with rfl | hji
    · rw [update_self] at hjuse ⊢
      rw [update_of_ne hne.symm] at hkuse ⊢
      have hapart := hfits.apart hjuse k hk hne.symm hkuse
      exact ⟨hapart.1.symm, hapart.2.symm⟩
    rw [update_of_ne hji] at hjuse ⊢
    rcases eq_or_ne k i with rfl | hki
    · rw [update_self] at hkuse ⊢
      exact hfits.apart hkuse j hj hji hjuse
    · rw [update_of_ne hki] at hkuse ⊢
      exact h.apart j hj k hk hjuse hkuse hne
  · intro j hj
    rcases eq_or_ne j i with rfl | hji
    · simpa using hfits.idle
    · simpa [update_of_ne hji] using h.idle j hj
  · intro j hj
    rcases eq_or_ne j i with rfl | hji
    · simpa using hfits.host
    · simpa [update_of_ne hji] using h.host j hj
  · intro j hj
    rcases eq_or_ne j i with rfl | hji
    · simpa using hfits.owned
    · simpa [update_of_ne hji] using hfits.rest j hj hji
  · intro j hpending
    rcases eq_or_ne j i with rfl | hji
    · exact hi
    dsimp only at hpending
    rw [update_of_ne hji] at hpending
    exact h.inside j hpending

theorem Sound.fits_same (hsent : ∀ packet ∈ s.sent, packet ∈ sent) (hi : i < maxVpnConnection)
    (huse : e.inuse = (s.table i).inuse) (hip : e.lanIp = (s.table i).lanIp)
    (hcookie : e.initcookie = (s.table i).initcookie) : Fits s sent i e := by
  constructor
  · intro hinuse j hj hji hjuse
    rw [hip, hcookie]
    exact h.apart j hj i hi hjuse (huse ▸ hinuse) hji
  · intro hidle
    exact hip ▸ h.idle i hi (huse ▸ hidle)
  · intro hinuse
    exact hip ▸ h.host i hi (huse ▸ hinuse)
  · intro hinuse
    rw [hip, hcookie]
    exact (h.owned i hi (huse ▸ hinuse)).mono (fun _ => hsent _)
  · intro j hj _ hjuse
    exact (h.owned j hj hjuse).mono (fun _ => hsent _)

/-- The entry of a sender with a new cookie fits, in use or not. -/
theorem Sound.fits_sender {lanIp : Nat} {cookie : Cookie}
    (hnew : ∀ j < maxVpnConnection, (s.table j).initcookie ≠ cookie.word)
    (hip : e.lanIp = lanIp) (hcookie : e.initcookie = cookie.word)
    (hidle : e.inuse = false → lanIp = 0) (hhost : e.inuse = true → lanIp ≠ 0)
    (hapart : e.inuse = true → ∀ j < maxVpnConnection, j ≠ i → (s.table j).inuse = true →
      (s.table j).lanIp ≠ lanIp) :
    Fits s ((lanIp, cookie) :: s.sent) i e := by
  subst hip
  constructor
  · intro hinuse j hj hji hjuse
    exact ⟨hapart hinuse j hj hji hjuse, hcookie ▸ hnew j hj⟩
  · exact hidle
  · exact hhost
  · intro _
    exact ⟨cookie, mem_cons_self, hcookie.symm⟩
  · intro j hj _ hjuse
    exact (h.owned j hj hjuse).mono (fun _ => mem_cons_of_mem _)

theorem Sound.outbound (now lanIp : Nat) (cookie : Cookie) (ct : Nat) :
    Sound (step (.outbound now lanIp cookie ct) s) := by
  simp only [step, Isakmp.outbound]
  cases hentry : outboundEntry now s.table lanIp cookie.word ct with
  | none =>
    refine { h with owned := ?_ }
    intro i hi huse
    exact (h.owned i hi huse).mono (fun _ => mem_cons_of_mem _)
  | some found =>
    obtain ⟨i, e⟩ := found
    obtain ⟨hi, ⟨_, rfl⟩ | ⟨hnew, ⟨hip, rfl⟩ | ⟨hnobody, hfree, rfl⟩⟩⟩ :=
      outboundEntry_cases hentry
    · refine h.update hi (h.fits_same ?_ hi rfl rfl rfl)
      intro packet hpacket
      exact mem_cons_of_mem _ hpacket
    · refine h.update hi (h.fits_sender hnew hip rfl ?_ ?_ ?_)
      · intro hidle
        exact hip ▸ h.idle i hi hidle
      · intro huse
        exact hip ▸ h.host i hi huse
      · intro huse j hj hji hjuse
        exact hip ▸ (h.apart j hj i hi hjuse huse hji).1
    · refine h.update hi (h.fits_sender hnew rfl rfl ?_ ?_ ?_)
      · nofun
      · intro _ hzero
        exact hnobody i hi ((h.idle i hi hfree).trans hzero.symm)
      · intro _ j hj _ _
        exact hnobody j hj

theorem Sound.inbound (cookie : Cookie) : Sound (step (.inbound cookie) s) := by
  simp only [step, Isakmp.inbound]
  cases hcookie : searchIpsecEntryByCookie s.table cookie.word with
  | none => exact h
  | some i =>
    have hi : i < maxVpnConnection := firstSlot_lt hcookie
    exact h.update hi (h.fits_same (fun _ hpacket => hpacket) hi rfl rfl rfl)

theorem Sound.timeout (now i : Nat) : Sound (step (.timeout now i) s) := by
  simp only [step, expire]
  cases hpending : (s.table i).timer.isSome with
  | false => simpa [stillSent] using h
  | true =>
    have hi := h.inside i hpending
    rw [if_pos rfl, update_self]
    rcases ipsecRefreshCt_cases now (s.table i) with ⟨huse, hzero⟩ | ⟨huse, hip, hcookie⟩
    · rw [hzero]
      refine h.update hi ⟨?_, fun _ => rfl, ?_, ?_, ?_⟩
      · rintro ⟨⟩
      · rintro ⟨⟩
      · rintro ⟨⟩
      intro j hj hji hjuse
      rw [stillSent, if_pos (by simp [huse, Entry.zero])]
      refine (h.owned j hj hjuse).mono (fun _ hmem => mem_filter.mpr ⟨hmem, ?_⟩)
      simpa using (h.apart j hj i hi hjuse huse hji).1
    · have hsent : stillSent (s.table i) (ipsecRefreshCt now (s.table i)) s.sent = s.sent := by
        rw [stillSent, if_neg (by simp [huse])]
      rw [hsent]
      exact h.update hi (h.fits_same (fun _ hpacket => hpacket) hi huse hip hcookie)

end

theorem sound_empty : Sound .empty := by
  constructor
  · rintro i _ j _ ⟨⟩
  · intro i _ _
    rfl
  · rintro i _ ⟨⟩
  · rintro i _ ⟨⟩
  · rintro i ⟨⟩

def after (events : List Event) : State :=
  run step events .empty

theorem Sound.step (h : Sound s) (event : Event) : Sound (step event s) := by
  cases event with
  | outbound now lanIp cookie ct => exact h.outbound now lanIp cookie ct
  | inbound cookie => exact h.inbound cookie
  | timeout now index => exact h.timeout now index

theorem sound_after (events : List Event) : Sound (after events) :=
  run_invariant (fun event _ _ h => h.step event) sound_empty

/-! ### Delivery to the owner -/

/-- An inbound packet with the cookie that is redirected goes to a host that has an
entry and has sent this very cookie since it has it. -/
def Delivered (s : State) (cookie : Cookie) : Prop :=
  ∀ ip, redirect s.table cookie.word = some ip →
    ∃ i < maxVpnConnection, (s.table i).inuse = true ∧ (s.table i).lanIp = ip ∧
      (ip, cookie) ∈ s.sent

/-- Delivery in terms of the first entry with the word. Free entries have the address 0, which
nobody in use has. -/
theorem Sound.delivered_iff (h : Sound s) (cookie : Cookie) :
    Delivered s cookie ↔
      ∀ i, searchIpsecEntryByCookie s.table cookie.word = some i →
        (s.table i).inuse = true ∧ ((s.table i).lanIp, cookie) ∈ s.sent := by
  constructor
  · intro hdelivered i hsearch
    have hi : i < maxVpnConnection := firstSlot_lt hsearch
    obtain ⟨j, hj, huse, hip, hsent⟩ :=
      hdelivered (s.table i).lanIp (by rw [redirect, hsearch, map_some])
    refine ⟨?_, hsent⟩
    -- an entry that is not in use has the address 0, which no host in use has
    by_contra hidle
    rw [h.idle i hi (Bool.eq_false_of_not_eq_true hidle)] at hip
    exact h.host j hj huse hip
  · intro hinuse ip hredirect
    obtain ⟨i, hsearch, rfl⟩ := map_eq_some_iff.mp hredirect
    exact ⟨i, firstSlot_lt hsearch, (hinuse i hsearch).1, rfl, (hinuse i hsearch).2⟩

def Blank (s : State) : Prop :=
  ∀ i < maxVpnConnection, (s.table i).inuse = false → (s.table i).initcookie = 0

theorem Blank.update (h : Blank s) (he : e.inuse = false → e.initcookie = 0) :
    Blank ⟨update s.table i e, sent⟩ := by
  intro j hj
  rcases eq_or_ne j i with rfl | hji
  · simpa using he
  · simpa [update_of_ne hji] using h j hj

theorem Blank.step (hsound : Sound s) (h : Blank s) (event : Event)
    (hhost : ∀ now cookie ct, event ≠ .outbound now 0 cookie ct) : Blank (step event s) := by
  cases event with
  | outbound now lanIp cookie ct =>
    simp only [Isakmp.step, Isakmp.outbound]
    cases hentry : outboundEntry now s.table lanIp cookie.word ct with
    | none => exact h
    | some found =>
      obtain ⟨i, e⟩ := found
      obtain ⟨hi, ⟨_, rfl⟩ | ⟨_, ⟨hip, rfl⟩ | ⟨_, _, rfl⟩⟩⟩ :=
        outboundEntry_cases hentry
      · exact h.update (h i hi)
      · refine h.update (fun hidle => ?_)
        have hzero : lanIp = 0 := hip.symm.trans (hsound.idle i hi hidle)
        exact absurd (hzero ▸ rfl) (hhost now cookie ct)
      · exact h.update nofun
  | inbound cookie =>
    simp only [Isakmp.step, Isakmp.inbound]
    cases hcookie : searchIpsecEntryByCookie s.table cookie.word with
    | none => exact h
    | some i => exact h.update (h i (firstSlot_lt hcookie))
  | timeout now i =>
    simp only [Isakmp.step, expire]
    cases hpending : (s.table i).timer.isSome with
    | false => exact h
    | true =>
      refine h.update (fun hidle => ?_)
      rcases ipsecRefreshCt_cases now (s.table i) with ⟨_, hzero⟩ | ⟨huse, _, hcookie⟩
      · rw [hzero]
        rfl
      · rw [hcookie]
        exact h i (hsound.inside i hpending) (huse ▸ hidle)

private theorem blank_after {events : List Event}
    (hhosts : ∀ now cookie ct, Event.outbound now 0 cookie ct ∉ events) : Blank (after events) := by
  have hboth : Sound (after events) ∧ Blank (after events) := by
    refine run_invariant (P := fun s : State => Sound s ∧ Blank s) ?_
      ⟨sound_empty, fun _ _ _ => rfl⟩
    rintro event hmem s ⟨hsound, hblank⟩
    refine ⟨hsound.step event, hblank.step hsound event ?_⟩
    rintro now cookie ct rfl
    exact hhosts now cookie ct hmem
  exact hboth.2

/-- What the hosts are remembered to have sent are packets of the run. -/
theorem mem_events_of_sent {events : List Event} {lanIp : Nat} {cookie : Cookie}
    (h : (lanIp, cookie) ∈ (after events).sent) :
    ∃ now ct, Event.outbound now lanIp cookie ct ∈ events := by
  have hall : ∀ packet ∈ (after events).sent,
      ∃ now ct, Event.outbound now packet.1 packet.2 ct ∈ events := by
    refine run_invariant (P := fun s : State => ∀ packet ∈ s.sent,
      ∃ now ct, .outbound now packet.1 packet.2 ct ∈ events) ?_ ?_
    swap
    · intro packet hpacket
      exact absurd hpacket not_mem_nil
    intro event hevent s hs
    cases event with
    | outbound now lanIp cookie ct =>
      intro packet hpacket
      rcases mem_cons.mp hpacket with rfl | hbefore
      · exact ⟨now, ct, hevent⟩
      · exact hs packet hbefore
    | inbound cookie => exact hs
    | timeout now i =>
      intro packet hpacket
      simp only [step, stillSent] at hpacket
      split at hpacket
      · exact hs packet (mem_filter.mp hpacket).1
      · exact hs packet hpacket
  exact hall (lanIp, cookie) h

/-- In every run entries in use have different hosts and cookies. An inbound packet goes to its
owner exactly if the first entry with the first word of its cookie is in use and its host has sent
the whole cookie. If no host has the address 0.0.0.0, this is so for every cookie whose first word
is not 0 and starts no other cookie that was sent. -/
theorem isakmp_owner_iff (events : List Event) :
    (∀ i < maxVpnConnection, ∀ j < maxVpnConnection,
      ((after events).table i).inuse = true → ((after events).table j).inuse = true →
      i ≠ j →
      ((after events).table i).lanIp ≠ ((after events).table j).lanIp ∧
        ((after events).table i).initcookie ≠ ((after events).table j).initcookie) ∧
    (∀ cookie, Delivered (after events) cookie ↔
      ∀ i, searchIpsecEntryByCookie (after events).table cookie.word = some i →
        ((after events).table i).inuse = true ∧
          (((after events).table i).lanIp, cookie) ∈ (after events).sent) ∧
    ((∀ now cookie ct, Event.outbound now 0 cookie ct ∉ events) →
      ∀ cookie : Cookie, cookie.word ≠ 0 →
        (∀ now lanIp other ct, .outbound now lanIp other ct ∈ events → other.word = cookie.word →
          other = cookie) →
        Delivered (after events) cookie) := by
  have h := sound_after events
  refine ⟨h.apart, h.delivered_iff, ?_⟩
  intro hhosts cookie hcookie honly
  rw [h.delivered_iff]
  intro i hsearch
  have hi : i < maxVpnConnection := firstSlot_lt hsearch
  have hsame : ((after events).table i).initcookie = cookie.word := by
    simpa using firstSlot_hit hsearch
  have huse : ((after events).table i).inuse = true := by
    by_contra hidle
    have hblank := blank_after hhosts i hi (Bool.eq_false_of_not_eq_true hidle)
    exact hcookie (hsame.symm.trans hblank)
  obtain ⟨other, hsent, hword⟩ := h.owned i hi huse
  obtain ⟨now, ct, hmem⟩ := mem_events_of_sent hsent
  obtain rfl := honly now _ other ct hmem (hword.trans hsame)
  exact ⟨huse, hsent⟩

/-- Two hosts negotiate, the first one a second time, and a timer runs off between. -/
def threeSessions : List Event :=
  [.outbound 0 167772162 ⟨77, 1⟩ 1, .outbound 5 167772163 ⟨78, 1⟩ 2, .timeout 2000 0,
    .outbound 2001 167772162 ⟨79, 1⟩ 1]

private theorem threeSessions_rest {now lanIp ct : Nat} {cookie : Cookie}
    (h : .outbound now lanIp cookie ct ∈ threeSessions) : cookie.rest = 1 := by
  simp only [threeSessions, mem_cons, Event.outbound.injEq, not_mem_nil] at h
  grind

/-- Each host gets the packets with its last cookie. -/
theorem session_delivered :
    redirect (after threeSessions).table 79 = some 167772162 ∧
      Delivered (after threeSessions) ⟨79, 1⟩ ∧
      redirect (after threeSessions).table 78 = some 167772163 ∧
      Delivered (after threeSessions) ⟨78, 1⟩ :=
  ⟨rfl, (isakmp_owner_iff threeSessions).2.2 (by simp [threeSessions]) ⟨79, 1⟩ (by simp)
      (fun _ _ _ _ hmem hword => Cookie.ext hword (threeSessions_rest hmem)),
    rfl, (isakmp_owner_iff threeSessions).2.2 (by simp [threeSessions]) ⟨78, 1⟩ (by simp)
      (fun _ _ _ _ hmem hword => Cookie.ext hword (threeSessions_rest hmem))⟩

/-- A packet with the cookie 0 that nobody has sent is given to the address 0.0.0.0, and one for
the second host to the first if the first words of their cookies agree. -/
theorem zero_cookie_redirected :
    ¬Delivered (after [.outbound 0 167772162 ⟨77, 1⟩ 1]) ⟨0, 0⟩ ∧
      ¬Delivered (after [.outbound 0 167772162 ⟨77, 1⟩ 1, .outbound 5 167772163 ⟨77, 2⟩ 2])
        ⟨77, 2⟩ := by
  rw [(sound_after _).delivered_iff, (sound_after _).delivered_iff]
  constructor
  · intro howner
    cases (howner 1 rfl).1
  · intro howner
    have hsent := (howner 0 rfl).2
    revert hsent
    decide

end EchoLife.Netfilter.Isakmp
