import EchoLife.Base.Text

/-!
The reply of a modem to a dial command. It comes in reads of up to 64 bytes, which are
collected in a buffer of 512 bytes; the text in the buffer is searched after each of them.
-/

namespace EchoLife.Board.Modem

open List Text

inductive AtResult
  | atOk
  | atTimeout
  deriving DecidableEq

structure Report where
  msg : List UInt8
  noCarrier : Option (List UInt8)

def reportOf (atDialStr : List UInt8) : Report :=
  if atDialStr = bytes "ATH\r" then ⟨bytes "\r\nOK\r\n", none⟩
  else ⟨bytes "CONNECT", some (bytes "NO CARRIER")⟩

/-- A turn of the loop. It fails if the modem has hung up, or if `select` or `read` fails or
comes back with nothing. It is stopped if `persist` is cleared when `read` has returned. -/
inductive Turn
  | failed
  | stopped (bytes : List UInt8)
  | read (bytes : List UInt8)

/-- `strstr(ch, text)` is not null. -/
abbrev Occurs (text ch : List UInt8) : Prop :=
  text <:+: ch.takeWhile (· ≠ 0)

variable (report : Report) (ch : List UInt8)

/-- One of the two texts is there. -/
def Decides : Prop :=
  Occurs report.msg ch ∨ ∃ text ∈ report.noCarrier, Occurs text ch

instance (report : Report) (ch : List UInt8) : Decidable (Decides report ch) :=
  inferInstanceAs (Decidable (_ ∨ _))

/-- The three tests after a read, the last one of them `pch > &ch[512-64]`. -/
def judge : Option AtResult :=
  if Occurs report.msg ch then some .atOk
  else if Decides report ch then some .atTimeout
  else if 512 - 64 < ch.length then some .atTimeout
  else none

/-- The loop, with what it has read so far. After the last turn `select` times out. -/
def submitLoop (report : Report) : List UInt8 → List Turn → AtResult
  | ch, .read new :: turns =>
    match judge report (ch ++ new) with
    | some result => result
    | none => submitLoop report (ch ++ new) turns
  | _, _ => .atTimeout

/-- From where the command has been written to the modem. -/
def atSmModemSubmitAt (atDialStr : List UInt8) (turns : List Turn) : AtResult :=
  submitLoop (reportOf atDialStr) [] turns

/-- The indices of `ch` that the loop stores to: by `read`, and by `pch[ret] = 0`. -/
def stores (report : Report) : List UInt8 → List Turn → List Nat
  | ch, .read new :: turns =>
    range' ch.length (new.length + 1) ++
      match judge report (ch ++ new) with
      | some _ => []
      | none => stores report (ch ++ new) turns
  | ch, .stopped new :: _ => range' ch.length new.length
  | _, _ => []

section Bounds

def Turn.Sized : Turn → Prop
  | .failed => True
  | .stopped new | .read new => 1 ≤ new.length ∧ new.length ≤ 64

/-- The loop comes to a read of 64 bytes with 448 bytes in the buffer. -/
def FillsUp (report : Report) : List UInt8 → List Turn → Prop
  | ch, .read new :: turns =>
    ch.length = 448 ∧ new.length = 64 ∨
      judge report (ch ++ new) = none ∧ FillsUp report (ch ++ new) turns
  | _, _ => False

variable {report : Report} {ch : List UInt8} {turns : List Turn}

private theorem length_le_of_judge_eq_none (h : judge report ch = none) : ch.length ≤ 448 := by
  unfold judge at h
  split_ifs at h with _ _ hlength
  omega

private theorem stores_lt_iff (hch : ch.length ≤ 448) (hturns : ∀ t ∈ turns, t.Sized) :
    (∀ i ∈ stores report ch turns, i < 512) ↔ ¬FillsUp report ch turns := by
  induction turns generalizing ch with
  | nil => simp [stores, FillsUp]
  | cons t turns ih =>
    obtain ⟨ht, hrest⟩ := forall_mem_cons.mp hturns
    cases t with
    | failed => simp [stores, FillsUp]
    | stopped new =>
      obtain ⟨-, hnew⟩ := ht
      simp only [stores, FillsUp, mem_range'_1, not_false_iff, iff_true]
      omega
    | read new =>
      obtain ⟨-, hnew⟩ := ht
      have hedge : (∀ i ∈ range' ch.length (new.length + 1), i < 512) ↔
          ¬(ch.length = 448 ∧ new.length = 64) := by
        simp only [mem_range'_1]
        constructor
        · intro hrange
          have hlast := hrange (ch.length + new.length) (by omega)
          omega
        · omega
      rw [stores, forall_mem_append, hedge, FillsUp, not_or]
      refine and_congr_right fun _ => ?_
      cases hjudge : judge report (ch ++ new) with
      | some result => simp
      | none => simpa using ih (length_le_of_judge_eq_none hjudge) hrest

end Bounds

/-- With reads of 1 to 64 bytes everything is stored inside the buffer exactly if the loop does
not come to a read of 64 bytes with 448 bytes in it. -/
theorem reply_in_buffer_iff (atDialStr : List UInt8) (turns : List Turn)
    (hturns : ∀ t ∈ turns, t.Sized) :
    (∀ i ∈ stores (reportOf atDialStr) [] turns, i < 512) ↔
      ¬FillsUp (reportOf atDialStr) [] turns :=
  stores_lt_iff (Nat.zero_le _) hturns

theorem connect_in_buffer :
    (atSmModemSubmitAt (bytes "ATD*99#\r") [.read (bytes "CONNECT")] = .atOk) ∧
      ∀ i ∈ stores (reportOf (bytes "ATD*99#\r")) [] [.read (bytes "CONNECT")], i < 512 := by
  refine ⟨by decide, (reply_in_buffer_iff _ _ ?_).mpr ?_⟩
  · rintro t ht
    rw [mem_singleton.mp ht]
    exact ⟨by decide, by decide⟩
  · rintro (⟨hlength, -⟩ | ⟨-, hfalse⟩)
    · cases hlength
    · exact hfalse

/-- Eight reads of 64 bytes put the terminator behind the buffer. -/
theorem eighth_read_behind_buffer :
    512 ∈ stores (reportOf (bytes "ATD*99#\r")) [] (replicate 8 (.read (replicate 64 65))) := by
  decide +kernel

section Chunks

/-- The stream comes in these reads. -/
def Cuts (stream : List UInt8) (reads : List (List UInt8)) : Prop :=
  reads.flatten = stream ∧ ∀ new ∈ reads, 1 ≤ new.length ∧ new.length ≤ 64

/-- The shortest prefix of the stream with one of the texts has `d` bytes. -/
def DecidedAt (stream : List UInt8) (d : Nat) : Prop :=
  Decides report (stream.take d) ∧ ∀ n < d, ¬Decides report (stream.take n)

variable {report : Report} {stream ch new : List UInt8} {reads : List (List UInt8)} {d w : Nat}

theorem Occurs.mono {text : List UInt8} (h : Occurs text ch) (hch : ch <+: stream) :
    Occurs text stream := by
  refine h.trans (IsPrefix.isInfix ?_)
  obtain ⟨rest, rfl⟩ := hch
  rw [takeWhile_append]
  split_ifs
  · exact ( takeWhile_prefix _).trans (prefix_append _ _)
  · exact prefix_rfl

theorem Decides.mono (h : Decides report ch) (hch : ch <+: stream) : Decides report stream :=
  h.imp (·.mono hch) (Exists.imp fun _ => And.imp_right (·.mono hch))

theorem judge_of_msg (h : Occurs report.msg ch) : judge report ch = some .atOk :=
  if_pos h

private theorem judge_of_not_msg (h : ¬Occurs report.msg ch) :
    judge report ch = some .atTimeout ∨ judge report ch = none := by
  unfold judge
  split_ifs <;> simp

theorem judge_of_not_decides (h : ¬Decides report ch) (hlength : ch.length ≤ 448) :
    judge report ch = none := by
  have hmsg : ¬Occurs report.msg ch := fun hoccurs => h (.inl hoccurs)
  rw [judge, if_neg hmsg, if_neg h, if_neg (by omega)]

private theorem exists_decidedAt (h : Decides report stream) : ∃ d, DecidedAt report stream d := by
  have hsome : ∃ n, Decides report (stream.take n) := ⟨stream.length, by rwa [take_length]⟩
  exact ⟨Nat.find hsome, Nat.find_spec hsome, fun _ hn => Nat.find_min hsome hn⟩

theorem DecidedAt.decides_iff (hd : DecidedAt report stream d) (hch : ch <+: stream) :
    Decides report ch ↔ d ≤ ch.length := by
  constructor
  · intro h
    by_contra hlt
    rw [prefix_iff_eq_take.mp hch] at h
    exact hd.2 ch.length (by omega) h
  · intro hle
    refine hd.1.mono (prefix_of_prefix_length_le ( take_prefix _ _) hch ?_)
    exact (length_take_le _ _).trans hle

/-- If the first text to be complete is the message, any reads find it. -/
theorem submitLoop_ok (hd : DecidedAt report stream d) (hmsg : Occurs report.msg (stream.take d))
    (hlimit : d ≤ 448) (hch : ¬Decides report ch) (hstream : ch ++ reads.flatten = stream) :
    submitLoop report ch (reads.map .read) = .atOk := by
  induction reads generalizing ch with
  | nil =>
    rw [flatten_nil, append_nil] at hstream
    exact absurd (hd.1.mono ( take_prefix _ _)) (hstream ▸ hch)
  | cons new reads ih =>
    rw [flatten_cons, ← append_assoc] at hstream
    have hnext : ch ++ new <+: stream := ⟨_, hstream⟩
    rw [map_cons, submitLoop]
    by_cases hdecides : Decides report (ch ++ new)
    · have hle := (hd.decides_iff hnext).mp hdecides
      have hprefix : stream.take d <+: ch ++ new :=
        prefix_of_prefix_length_le ( take_prefix _ _) hnext ((length_take_le _ _).trans hle)
      rw [judge_of_msg (hmsg.mono hprefix)]
    · have hlt := mt (hd.decides_iff hnext).mpr hdecides
      rw [judge_of_not_decides hdecides (by omega)]
      exact ih hdecides hstream

/-- If no read that begins before the decision completes the message, it is not found. -/
theorem submitLoop_timeout
    (hquiet : ∀ ch new, ch ++ new <+: stream → ¬Decides report ch → new.length ≤ w →
      ¬Occurs report.msg (ch ++ new))
    (hreads : ∀ new ∈ reads, new.length ≤ w) (hch : ¬Decides report ch)
    (hstream : ch ++ reads.flatten = stream) :
    submitLoop report ch (reads.map .read) = .atTimeout := by
  induction reads generalizing ch with
  | nil => rfl
  | cons new reads ih =>
    obtain ⟨hnew, hrest⟩ := forall_mem_cons.mp hreads
    rw [flatten_cons, ← append_assoc] at hstream
    have hmsg := hquiet ch new ⟨_, hstream⟩ hch hnew
    rw [map_cons, submitLoop]
    by_cases hdecides : Decides report (ch ++ new)
    · rw [judge, if_neg hmsg, if_pos hdecides]
    · obtain hjudge | hjudge := judge_of_not_msg hmsg
      · rw [hjudge]
      · rw [hjudge]
        exact ih hrest hdecides hstream

theorem DecidedAt.quiet (hd : DecidedAt report stream d)
    (hmsg : ¬Occurs report.msg (stream.take (d + w))) (hch : ch ++ new <+: stream)
    (hundecided : ¬Decides report ch) (hnew : new.length ≤ w + 1) :
    ¬Occurs report.msg (ch ++ new) := by
  have hlt := mt (hd.decides_iff ((prefix_append ch new).trans hch)).mpr hundecided
  refine mt (fun hoccurs => hoccurs.mono ?_) hmsg
  rw [prefix_iff_eq_take.mp hch]
  refine take_prefix_take_left ?_
  rw [length_append]
  omega

private theorem submitLoop_append {before : List (List UInt8)} (rest : List Turn)
    (hundecided : ¬Decides report (ch ++ before.flatten))
    (hlength : (ch ++ before.flatten).length ≤ 448) :
    submitLoop report ch (before.map .read ++ rest) =
      submitLoop report (ch ++ before.flatten) rest := by
  induction before generalizing ch with
  | nil => simp
  | cons new before ih =>
    rw [flatten_cons, ← append_assoc] at hundecided hlength ⊢
    have hnext := mt (fun h : Decides report (ch ++ new) => h.mono (prefix_append _ _)) hundecided
    rw [map_cons, cons_append, submitLoop, judge_of_not_decides hnext]
    · exact ih hundecided hlength
    · rw [length_append] at hlength
      omega

private theorem not_decides_nil (atDialStr : List UInt8) : ¬Decides (reportOf atDialStr) [] := by
  unfold reportOf
  split <;> decide

theorem cuts_singles (stream : List UInt8) : Cuts stream (stream.map ([·])) := by
  refine ⟨?_, by simp⟩
  rw [← flatMap_def, flatMap_singleton']

/-- The only reads that are longer than a byte are the 64 from `n` on. -/
def blockReads (stream : List UInt8) (n : Nat) : List (List UInt8) :=
  (stream.take n).map ([·]) ++ (stream.drop n).take 64 :: ((stream.drop n).drop 64).map ([·])

theorem cuts_blockReads {n : Nat} (hn : n < stream.length) : Cuts stream (blockReads stream n) := by
  refine ⟨?_, ?_⟩
  · rw [blockReads, flatten_append, flatten_cons, (cuts_singles _).1, (cuts_singles _).1,
      take_append_drop, take_append_drop]
  · rw [blockReads, forall_mem_append, forall_mem_cons]
    refine ⟨(cuts_singles _).2, ?_, (cuts_singles _).2⟩
    rw [length_take, length_drop]
    omega

end Chunks

/-- A stream that is decided within 448 bytes has one outcome, however it is cut into reads of 1
to 64 bytes, exactly if `NO CARRIER` does not come first with `CONNECT` complete up to 63 bytes
later. -/
theorem outcome_of_reads_iff (atDialStr stream : List UInt8)
    (hlimit : Decides (reportOf atDialStr) stream →
      Decides (reportOf atDialStr) (stream.take 448)) :
    (∀ reads reads', Cuts stream reads → Cuts stream reads' →
        atSmModemSubmitAt atDialStr (reads.map .read) =
          atSmModemSubmitAt atDialStr (reads'.map .read)) ↔
      ¬∃ d, DecidedAt (reportOf atDialStr) stream d ∧
        ¬Occurs (reportOf atDialStr).msg (stream.take d) ∧
        Occurs (reportOf atDialStr).msg (stream.take (d + 63)) := by
  have hnil := not_decides_nil atDialStr
  simp only [atSmModemSubmitAt]
  generalize reportOf atDialStr = report at *
  constructor
  · rintro hsame ⟨d, hd, hfirst, hlater⟩
    have hpos : d ≠ 0 := by
      rintro rfl
      exact hnil hd.1
    have hlength : d ≤ stream.length := by
      have hwhole := hd.1.mono ( take_prefix _ _)
      exact (hd.decides_iff prefix_rfl).mp hwhole
    have hsingles := submitLoop_timeout
      (fun _ _ => hd.quiet (w := 0) hfirst) (by simp) hnil (cuts_singles stream).1
    have hblock : submitLoop report [] ((blockReads stream (d - 1)).map .read) = .atOk := by
      have hd448 : d ≤ (stream.take 448).length :=
        (hd.decides_iff ( take_prefix _ _)).mp (hlimit (hd.1.mono ( take_prefix _ _)))
      have hreach : stream.take (d - 1) ++ (stream.drop (d - 1)).take 64 =
          stream.take (d + 63) := by
        rw [← take_add]
        congr 1
        omega
      rw [length_take] at hd448
      rw [blockReads, map_append, submitLoop_append, (cuts_singles _).1, nil_append, map_cons,
        submitLoop, hreach, judge_of_msg hlater]
      · rw [(cuts_singles _).1]
        exact hd.2 (d - 1) (by omega)
      · rw [(cuts_singles _).1, nil_append, length_take]
        omega
    have hequal := hsame _ _ (cuts_singles stream) (cuts_blockReads (by omega : d - 1 < _))
    rw [hsingles, hblock] at hequal
    cases hequal
  · intro hfar
    suffices hresult : ∃ result, ∀ reads, Cuts stream reads →
        submitLoop report [] (reads.map .read) = result by
      obtain ⟨result, hresult⟩ := hresult
      intro reads reads' hreads hreads'
      rw [hresult reads hreads, hresult reads' hreads']
    by_cases hdecides : Decides report stream
    · obtain ⟨d, hd⟩ := exists_decidedAt hdecides
      by_cases hmsg : Occurs report.msg (stream.take d)
      · have hd448 := (hd.decides_iff ( take_prefix _ _)).mp (hlimit hdecides)
        rw [length_take] at hd448
        exact ⟨.atOk, fun reads hreads => submitLoop_ok hd hmsg (by omega) hnil hreads.1⟩
      · have hlate : ¬Occurs report.msg (stream.take (d + 63)) :=
          fun hlater => hfar ⟨d, hd, hmsg, hlater⟩
        exact ⟨.atTimeout, fun reads hreads => submitLoop_timeout (fun _ _ => hd.quiet hlate)
          (fun new hnew => (hreads.2 new hnew).2) hnil hreads.1⟩
    · have hquiet : ∀ ch new, ch ++ new <+: stream → ¬Decides report ch → new.length ≤ 64 →
          ¬Occurs report.msg (ch ++ new) :=
        fun _ _ hprefix _ _ hoccurs => hdecides (.inl (hoccurs.mono hprefix))
      exact ⟨.atTimeout, fun reads hreads => submitLoop_timeout hquiet
        (fun new hnew => (hreads.2 new hnew).2) hnil hreads.1⟩

theorem no_carrier_in_any_reads :
    (Decides (reportOf (bytes "ATD*99#\r")) (bytes "NO CARRIER")) ∧
      ∀ reads reads', Cuts (bytes "NO CARRIER") reads → Cuts (bytes "NO CARRIER") reads' →
        atSmModemSubmitAt (bytes "ATD*99#\r") (reads.map .read) =
          atSmModemSubmitAt (bytes "ATD*99#\r") (reads'.map .read) := by
  refine ⟨by decide, (outcome_of_reads_iff _ _ fun _ => by decide).mpr ?_⟩
  rintro ⟨d, -, -, hlater⟩
  rw [take_of_length_le (le_trans (by decide) (Nat.le_add_left 63 d))] at hlater
  exact absurd hlater (by decide)

/-- In one read `CONNECT` is found. With a read for each text it comes too late. -/
theorem outcome_depends_on_reads :
    atSmModemSubmitAt (bytes "ATD*99#\r") [.read (bytes "NO CARRIER\r\nCONNECT")] = .atOk ∧
      atSmModemSubmitAt (bytes "ATD*99#\r")
        [.read (bytes "NO CARRIER"), .read (bytes "\r\nCONNECT")] = .atTimeout := by
  decide

end EchoLife.Board.Modem
