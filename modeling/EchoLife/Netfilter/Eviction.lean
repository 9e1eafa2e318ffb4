import EchoLife.Base.Buckets
import EchoLife.Base.Recency
import EchoLife.Base.Run

/-!
Connection tracking and the list that connections are evicted from (`nf_conntrack_core.c`). A
connection is counted by the packets that carry it, by its timer while it is in the hash table,
and by the connections it is the master of. When the table is full, a new connection takes the
place of one in its hash chain or of the first one in `safe_list`. `init_conntrack` puts a
connection into the list; `ctnetlink_create_conntrack` makes one that is in the hash table only.
Each event runs to its end before the next one starts.
-/

namespace EchoLife.Netfilter.Conntrack

open Buckets Function Run

inductive Dir
  | original
  | reply
  deriving DecidableEq

inductive CtInfo
  | established
  | related
  | new
  | establishedReply
  deriving DecidableEq

/-- A connection. `timeout` says that the timer is pending and `safeList` that the
link of the eviction list is not null, as `memset` leaves it. -/
structure Conn (τ : Type) where
  orig : τ
  reply : τ
  use : Nat
  confirmed : Bool
  seenReply : Bool
  expected : Bool
  assured : Bool
  timeout : Bool
  safeList : Bool
  master : Option Nat
  deriving DecidableEq

/-- A connection as `__nf_conntrack_alloc` returns it. -/
def Conn.allocated {τ : Type} (orig repl : τ) : Conn τ :=
  ⟨orig, repl, 1, false, false, false, false, false, false, none⟩

structure Expect (τ : Type) where
  tuple : τ
  master : Nat
  permanent : Bool
  deriving DecidableEq

/-- Who counts a connection: a packet or a caller, the timer's handler, or a connection
that it is the master of. -/
inductive Holder
  | skb
  | timer
  | child (id : Nat)
  deriving DecidableEq

/-- The tables and the heap. History: the references held, the time of the last use, the
connections moved within the eviction list that are not in it, and those evicted while another had
been idle for longer. -/
structure State (τ : Type) (n : Nat) where
  conns : Nat → Option (Conn τ)
  next : Nat
  hash : Fin n → List (Nat × Dir)
  safeList : List Nat
  expects : List (Expect τ)
  count : Nat
  max : Nat
  refs : List (Holder × Nat)
  clock : Nat
  used : Nat → Nat
  strays : List Nat
  misjudged : List Nat

/-- `hash_conntrack` and `nf_ct_tuple_mask_cmp`. -/
structure Env (τ : Type) (n : Nat) where
  hash : τ → Fin n
  covers : τ → τ → Bool

variable {τ : Type} [DecidableEq τ] {n : Nat}

namespace State

def modify (id : Nat) (f : Conn τ → Conn τ) (s : State τ n) : State τ n :=
  { s with conns := update s.conns id ((s.conns id).map f) }

def flag (f : Conn τ → Bool) (id : Nat) (s : State τ n) : Bool :=
  (s.conns id).any f

def tupleOf (s : State τ n) : Nat × Dir → Option τ
  | (id, .original) => (s.conns id).map Conn.orig
  | (id, .reply) => (s.conns id).map Conn.reply

def touch (id : Nat) (s : State τ n) : State τ n :=
  { s with used := update s.used id s.clock, clock := s.clock + 1 }

end State

/-- `nf_conntrack_get`. -/
def hold (holder : Holder) (id : Nat) (s : State τ n) : State τ n :=
  { s.modify id (fun ct => { ct with use := ct.use + 1 }) with
    refs := (holder, id) :: s.refs }

def release (holder : Holder) (id : Nat) (s : State τ n) : State τ n :=
  { s.modify id (fun ct => { ct with use := ct.use - 1 }) with
    refs := s.refs.erase (holder, id) }

def nfCtRemoveExpectations (id : Nat) (s : State τ n) : State τ n :=
  { s with expects := s.expects.filter (fun e => e.master ≠ id) }

def nfConntrackFree (id : Nat) (s : State τ n) : State τ n :=
  { s with
    safeList := if s.flag Conn.safeList id then s.safeList.erase id else s.safeList
    conns := update s.conns id none
    count := s.count - 1 }

/-- `nf_ct_put` with `destroy_conntrack`. The loop over derived connections is left out: each
counts its master, which is destroyed when nobody does. -/
def putLoop : Nat → Holder → Nat → State τ n → State τ n
  | 0, _, _, s => s
  | fuel + 1, holder, id, s =>
    let s := release holder id s
    match s.conns id with
    | none => s
    | some ct =>
      if ct.use = 0 then
        let s := nfCtRemoveExpectations id s
        let s :=
          match ct.master with
          | none => s
          | some master => putLoop fuel (.child id) master s
        nfConntrackFree id s
      else s

/-- A master is older than its connections, which bounds the chain of masters. -/
def nfCtPut (holder : Holder) (id : Nat) (s : State τ n) : State τ n :=
  putLoop (id + 1) holder id s

def delTimer (id : Nat) (s : State τ n) : State τ n :=
  { s.modify id (fun ct => { ct with timeout := false }) with
    refs := (.timer, id) :: s.refs }

def cleanFromLists (id : Nat) (s : State τ n) : State τ n :=
  nfCtRemoveExpectations id
    { s with hash := unlink (unlink s.hash (id, .original)) (id, .reply) }

def deathByTimeout (id : Nat) (s : State τ n) : State τ n :=
  nfCtPut .timer id (cleanFromLists id s)

/-- The end of `early_drop`, `regardless_drop` and each turn of `nf_ct_iterate_cleanup`: the
connection is held, and dies if its timer is pending. -/
def drop (id : Nat) (s : State τ n) : Bool × State τ n :=
  let s := hold .skb id s
  if s.flag Conn.timeout id then
    (true, nfCtPut .skb id (deathByTimeout id (delTimer id s)))
  else (false, nfCtPut .skb id s)

variable (env : Env τ n) (tuple : τ)

def nfConntrackFind (s : State τ n) : Option (Nat × Dir) :=
  (s.hash (env.hash tuple)).find? (fun h => s.tupleOf h = some tuple)

def earlyDrop (slot : Fin n) (s : State τ n) : Bool × State τ n :=
  match (s.hash slot).reverse.find? (fun h => !s.flag Conn.assured h.1) with
  | none => (false, s)
  | some h => drop h.1 s

def idler (id : Nat) (s : State τ n) : List Nat :=
  (List.range s.next).filter (fun other =>
    (s.conns other).isSome && decide (s.used other < s.used id))

def pick (id : Nat) (s : State τ n) : State τ n :=
  if idler id s = [] then s else { s with misjudged := id :: s.misjudged }

def regardlessDrop (s : State τ n) : Bool × State τ n :=
  match s.safeList with
  | [] => (false, s)
  | id :: _ => drop id (pick id s)

/-- A connection, `-ENOMEM`, or a null pointer. -/
inductive Alloc
  | made (id : Nat)
  | enomem
  | null
  deriving DecidableEq

/-- The end of `__nf_conntrack_alloc`; `room` says whether there is a slab cache with
the features, and an object in it. -/
def newConn (orig repl : τ) (room : Bool) (s : State τ n) : Alloc × State τ n :=
  if room then
    (.made s.next, { s with
        conns := update s.conns s.next (some (.allocated orig repl))
        next := s.next + 1
        refs := (.skb, s.next) :: s.refs })
  else (.null, { s with count := s.count - 1 })

def nfConntrackAlloc (orig repl : τ) (room : Bool) (s : State τ n) : Alloc × State τ n :=
  let s := { s with count := s.count + 1 }
  if s.max ≠ 0 ∧ s.max < s.count then
    match earlyDrop (env.hash orig) s with
    | (true, s) => newConn orig repl room s
    | (false, s) =>
      match regardlessDrop s with
      | (true, s) => newConn orig repl room s
      | (false, s) => (.enomem, { s with count := s.count - 1 })
  else newConn orig repl room s

/-- `nf_conntrack_free` for a connection that only its creator holds. -/
def abandon (id : Nat) (s : State τ n) : State τ n :=
  nfConntrackFree id (release .skb id s)

def findExpectation (s : State τ n) : Option (Expect τ) × State τ n :=
  match s.expects.find? (fun e => env.covers e.tuple tuple) with
  | none => (none, s)
  | some e =>
    if s.flag Conn.confirmed e.master then
      if e.permanent then (some e, s) else (some e, { s with expects := s.expects.erase e })
    else (none, s)

/-- Its tuple and the inverse, if there is one, whether the protocol takes a new connection for
it, and what its `packet` handler does: it may mark the connection assured, stop its timer and let
it die, and returns a verdict or a negative number. -/
structure Packet (τ : Type) where
  tuple : Option τ
  inverse : Option τ
  room : Bool
  new : Bool
  assures : Bool
  closes : Bool
  ret : Int

/-- `list_add_tail(&conntrack->safe_list, &safe_list)`. -/
def listAddTail (id : Nat) (s : State τ n) : State τ n :=
  { (s.modify id (fun ct => { ct with safeList := true })).touch id with
    safeList := s.safeList ++ [id] }

/-- `list_move_tail(&ct->safe_list, &safe_list)`. With null links it writes through a
null pointer. -/
def listMoveTail (id : Nat) (s : State τ n) : State τ n :=
  if s.flag Conn.safeList id then
    { s.touch id with safeList := s.safeList.erase id ++ [id] }
  else { s with strays := id :: s.strays }

/-- The part of `init_conntrack` after the protocol has taken the connection. -/
def welcome (id : Nat) (s : State τ n) : State τ n :=
  match findExpectation env tuple (listAddTail id s) with
  | (none, s) => s
  | (some e, s) =>
    hold (.child id) e.master
      (s.modify id (fun ct => { ct with expected := true, master := some e.master }))

def initConntrack (p : Packet τ) (s : State τ n) : Alloc × State τ n :=
  match p.inverse with
  | none => (.null, s)
  | some repl =>
    match nfConntrackAlloc env tuple repl p.room s with
    | (.made id, s) =>
      if p.new then (.made id, welcome env tuple id s) else (.null, abandon id s)
    | (refused, s) => (refused, s)

def ctInfo (dir : Dir) (ct : Conn τ) : CtInfo :=
  match dir with
  | .reply => .establishedReply
  | .original =>
    if ct.seenReply then .established
    else if ct.expected then .related
    else .new

def resolveNormalCt (p : Packet τ) (s : State τ n) : Alloc × Dir × State τ n :=
  match p.tuple with
  | none => (.null, .original, s)
  | some tuple =>
    match nfConntrackFind env tuple s with
    | some (id, dir) => (.made id, dir, hold .skb id s)
    | none =>
      match initConntrack env tuple p s with
      | (result, s) => (result, .original, s)

/-- What the protocol's `packet` handler does to the connection. -/
def l4Packet (p : Packet τ) (id : Nat) (s : State τ n) : State τ n :=
  let s := s.modify id (fun ct => { ct with assured := ct.assured || p.assures })
  if p.closes ∧ s.flag Conn.timeout id then deathByTimeout id (delTimer id s) else s

def nfDrop : Int := 0

def nfAccept : Int := 1

def setSeenReply (info : CtInfo) (id : Nat) (s : State τ n) : State τ n :=
  if info = .establishedReply then s.modify id (fun ct => { ct with seenReply := true })
  else s

/-- The part of `nf_conntrack_in` after a connection was found or made. -/
def track (p : Packet τ) (id : Nat) (info : CtInfo) (s : State τ n) : Int × State τ n :=
  let s := l4Packet p id s
  if p.ret < 0 then (-p.ret, nfCtPut .skb id s)
  else
    let s := setSeenReply info id s
    if info = .established ∨ info = .establishedReply then (p.ret, listMoveTail id s)
    else (p.ret, s)

def nfConntrackIn (p : Packet τ) (s : State τ n) : Int × State τ n :=
  match resolveNormalCt env p s with
  | (.null, _, s) => (nfAccept, s)
  | (.enomem, _, s) => (nfDrop, s)
  | (.made id, dir, s) =>
    match s.conns id with
    | none => (nfAccept, s)
    | some ct => track p id (ctInfo dir ct) s

def nfConntrackHashInsert (id : Nat) (ct : Conn τ) (s : State τ n) : State τ n :=
  { s with
    hash := Buckets.insert (Buckets.insert s.hash (env.hash ct.orig) (id, .original))
      (env.hash ct.reply) (id, .reply) }

def nfConntrackConfirm (dir : Dir) (id : Nat) (s : State τ n) : Int × State τ n :=
  match s.conns id with
  | none => (nfAccept, s)
  | some ct =>
    if ct.confirmed ∨ dir = .reply then (nfAccept, s)
    else if (nfConntrackFind env ct.orig s).isSome ∨ (nfConntrackFind env ct.reply s).isSome
    then (nfDrop, s)
    else
      (nfAccept, (nfConntrackHashInsert env id ct s).modify id (fun ct =>
          { ct with timeout := true, use := ct.use + 1, confirmed := true }))

def nfConntrackAlterReply (id : Nat) (newreply : τ) (s : State τ n) : State τ n :=
  s.modify id (fun ct => { ct with reply := newreply })

/-- A request of `ctnetlink_new_conntrack`: the tuples, `NLM_F_CREATE` and `NLM_F_EXCL`, whether
there is a timeout, whether the other attributes are accepted, and the status bits they set. -/
structure Request (τ : Type) where
  otuple : τ
  rtuple : τ
  create : Bool
  excl : Bool
  timeout : Bool
  accepted : Bool
  seenReply : Bool
  assured : Bool
  room : Bool

def changeStatus (r : Request τ) (ct : Conn τ) : Conn τ :=
  { ct with
    seenReply := ct.seenReply || r.seenReply
    assured := ct.assured || r.assured }

/-- `ctnetlink_create_conntrack`. The reference of the allocation becomes that of the
timer. -/
def ctnetlinkCreateConntrack (r : Request τ) (s : State τ n) : State τ n :=
  match nfConntrackAlloc env r.otuple r.rtuple r.room s with
  | (.made id, s) =>
    if r.timeout ∧ r.accepted then
      let s := s.modify id (fun ct =>
        { changeStatus r ct with confirmed := true, timeout := true })
      match s.conns id with
      | none => s
      | some ct =>
        { (nfConntrackHashInsert env id ct s).touch id with
          refs := s.refs.erase (.skb, id) }
    else abandon id s
  | (_, s) => s

def ctnetlinkNewConntrack (r : Request τ) (s : State τ n) : State τ n :=
  match nfConntrackFind env r.otuple s with
  | none => if r.create then ctnetlinkCreateConntrack env r s else s
  | some (id, _) => if r.excl ∨ !r.accepted then s else s.modify id (changeStatus r)

inductive Event (τ : Type)
  | packet (p : Packet τ)
  | confirm (id : Nat) (dir : Dir)
  | alterReply (id : Nat) (newreply : τ)
  | get (id : Nat)
  | put (id : Nat)
  | timeout (id : Nat)
  | cleanup (id : Nat)
  | expect (e : Expect τ)
  | unexpect (e : Expect τ)
  | newConntrack (r : Request τ)
  | sysctl (max : Nat)

def Hashed (id : Nat) (s : State τ n) : Prop :=
  ∃ dir, (id, dir) ∈ entries s.hash

instance (id : Nat) (s : State τ n) : Decidable (Hashed id s) :=
  decidable_of_iff ((id, Dir.original) ∈ entries s.hash ∨ (id, Dir.reply) ∈ entries s.hash) (by
    constructor
    · rintro (h | h)
      · exact ⟨_, h⟩
      · exact ⟨_, h⟩
    · rintro ⟨_ | _, h⟩
      · exact .inl h
      · exact .inr h)

/-- A packet is confirmed, altered, copied, freed and given an expectation while it carries the
connection; a connection is looked up in the hash table; a timer goes off when it is pending. -/
def Event.Possible (s : State τ n) : Event τ → Prop
  | .packet _ | .unexpect _ | .newConntrack _ | .sysctl _ => True
  | .confirm id _ | .put id => (.skb, id) ∈ s.refs
  | .alterReply id _ => (.skb, id) ∈ s.refs ∧ s.flag Conn.confirmed id = false
  | .get id | .cleanup id => (.skb, id) ∈ s.refs ∨ Hashed id s
  | .timeout id => s.flag Conn.timeout id = true
  | .expect e => (.skb, e.master) ∈ s.refs

instance (s : State τ n) : (e : Event τ) → Decidable (e.Possible s)
  | .packet _ | .unexpect _ | .newConntrack _ | .sysctl _ => .isTrue trivial
  | .confirm id _ | .put id => inferInstanceAs (Decidable ((.skb, id) ∈ s.refs))
  | .alterReply id _ =>
    inferInstanceAs (Decidable ((.skb, id) ∈ s.refs ∧ s.flag Conn.confirmed id = false))
  | .get id | .cleanup id =>
    inferInstanceAs (Decidable ((.skb, id) ∈ s.refs ∨ Hashed id s))
  | .timeout id => inferInstanceAs (Decidable (s.flag Conn.timeout id = true))
  | .expect e => inferInstanceAs (Decidable ((.skb, e.master) ∈ s.refs))

def act (s : State τ n) : Event τ → State τ n
  | .packet p => (nfConntrackIn env p s).2
  | .confirm id dir => (nfConntrackConfirm env dir id s).2
  | .alterReply id newreply => nfConntrackAlterReply id newreply s
  | .get id => hold .skb id s
  | .put id => nfCtPut .skb id s
  | .timeout id => deathByTimeout id (delTimer id s)
  | .cleanup id => (drop id s).2
  | .expect e => { s with expects := e :: s.expects }
  | .unexpect e => { s with expects := s.expects.erase e }
  | .newConntrack r => ctnetlinkNewConntrack env r s
  | .sysctl max => { s with max := max }

/-- The kernel does not survive a write through a null pointer, and what is not possible
does not happen. -/
def step (e : Event τ) (s : State τ n) : State τ n :=
  if s.strays = [] ∧ e.Possible s then act env s e else s

def start (max : Nat) : State τ n where
  conns _ := none
  next := 0
  hash _ := []
  safeList := []
  expects := []
  count := 0
  max := max
  refs := []
  clock := 0
  used _ := 0
  strays := []
  misjudged := []

end EchoLife.Netfilter.Conntrack
