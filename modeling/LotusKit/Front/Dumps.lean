import LotusKit.Front.Delivery
import Mathlib.NumberTheory.Padics.PadicVal.Basic

/-! Which dumps a request gets to see. A promise is resolved at an `endDump`, and the request behind
one that is resolved then misses it: of requests that overlap, the n-th one waits for as many dumps as
2 goes into n, and for one more. -/

namespace LotusKit.Front

/-- `{endDump: true}` in a namespace. -/
def endDump (ns : String) : Payload := ⟨ns, none, none, none, none, true⟩

/-- What the mod sends for one request: some messages, and then that this was all. -/
structure Dump (ns : String) where
  body : List Payload
  inside : ∀ payload ∈ body, payload.ns = ns ∧ payload.endDump = false

variable {ns : String}

def Dump.payloads (dump : Dump ns) : List Payload := dump.body ++ [endDump ns]

/-- Everything that a number of dumps contain. -/
def contents (dumps : List (Dump ns)) : List Payload := dumps.flatMap Dump.body

namespace Request

theorem feed_append (request : Request) (front back : List Payload) :
    request.feed (front ++ back) = (request.feed front).feed back := List.foldl_append

/-- Nothing is gathered from the end of a dump. -/
theorem each_endDump (request : Request) : (request.each (endDump ns)).1 = request := by
  cases request with
  | _ => rfl

end Request

/-- The callback after a message in the middle of a dump. -/
def Closure.hear (payload : Payload) (c : Closure) : Closure :=
  if c.Waits payload.ns then ⟨c.ns, (c.request.each payload).1, false⟩ else c

theorem deliver_more {payload : Payload} (more : payload.endDump = false) (closures : List Closure) :
    deliver payload false closures = closures.map (Closure.hear payload) := by
  induction closures with
  | nil => rfl
  | cons c closures ih =>
    rw [deliver, more, if_neg Bool.false_ne_true, ih, List.map_cons, Closure.hear]
    split
    all_goals rfl

/-- The callback after the messages of a dump. -/
def Closure.hearAll (ns : String) (payloads : List Payload) (c : Closure) : Closure :=
  if c.Waits ns then ⟨c.ns, c.request.feed payloads, false⟩ else c

theorem Closure.hearAll_nil (ns : String) (c : Closure) : c.hearAll ns [] = c := by
  rw [hearAll]
  split
  case isTrue waits => exact congrArg (Closure.mk c.ns c.request) waits.2.symm
  case isFalse => rfl

theorem Closure.hearAll_cons {payload : Payload} (here : payload.ns = ns) (payloads : List Payload) (c : Closure) :
    c.hearAll ns (payload :: payloads) = (c.hear payload).hearAll ns payloads := by
  subst here
  rw [hearAll, hear]
  split
  case isTrue waits => exact (if_pos ⟨waits.1, rfl⟩).symm
  case isFalse passed => exact (if_neg passed).symm

theorem deliver_body {body : List Payload} (inside : ∀ payload ∈ body, payload.ns = ns ∧ payload.endDump = false)
    (closures : List Closure) :
    (body.map Event.message).foldl Event.deliver closures = closures.map (Closure.hearAll ns body) := by
  induction body generalizing closures with
  | nil =>
    have nothing : Closure.hearAll ns [] = id := funext fun c => c.hearAll_nil ns
    rw [nothing, List.map_id]
    rfl
  | cons payload body ih =>
    rw [List.forall_mem_cons] at inside
    have step : Event.deliver closures (.message payload) = closures.map (Closure.hear payload) :=
      deliver_more inside.1.2 closures
    rw [List.map_cons, List.foldl_cons, step, ih inside.2, List.map_map]
    congr 1
    funext c
    exact (c.hearAll_cons inside.1.1 body).symm

/-- The callback of the request number `i` after some dumps. -/
def outcome (dumps : List (Dump ns)) (at_i : Request × Nat) : Closure :=
  ⟨ns, at_i.1.feed (contents (dumps.take (padicValNat 2 (at_i.2 + 1) + 1))),
    decide (padicValNat 2 (at_i.2 + 1) < dumps.length)⟩

/-- The same when one more dump has begun. -/
def underway (dumps : List (Dump ns)) (body : List Payload) (at_i : Request × Nat) : Closure :=
  (outcome dumps at_i).hearAll ns body

theorem dvd_iff_le (i n : Nat) : 2 ^ n ∣ i + 1 ↔ n ≤ padicValNat 2 (i + 1) :=
  padicValNat_dvd_iff_le (Nat.succ_ne_zero i)

/-- Whether the next request that waits misses the end of a dump that comes behind `n` others. -/
def misses (n i : Nat) : Bool := decide (i / 2 ^ n % 2 = 1)

theorem misses_zero (n : Nat) : misses n 0 = false := by
  rw [misses, Nat.zero_div]
  rfl

theorem misses_succ_of_lt {n i : Nat} (early : padicValNat 2 (i + 1) < n) : misses n (i + 1) = misses n i := by
  have odd_one_out : ¬2 ^ n ∣ i + 1 := fun divides => absurd ((dvd_iff_le i n).mp divides) (Nat.not_le.mpr early)
  rw [misses, Nat.succ_div_of_not_dvd odd_one_out, misses]

theorem misses_succ_of_le {n i : Nat} (late : n ≤ padicValNat 2 (i + 1)) : misses n (i + 1) = !misses n i := by
  rw [misses, Nat.succ_div_of_dvd ((dvd_iff_le i n).mpr late), misses, ← decide_not]
  congr 1
  apply propext
  omega

/-- The requests that miss the end are those that wait for a later one. -/
theorem misses_eq {n i : Nat} (late : n ≤ padicValNat 2 (i + 1)) : misses n i = decide (n < padicValNat 2 (i + 1)) := by
  have next : i / 2 ^ n % 2 = 1 ↔ 2 ∣ (i + 1) / 2 ^ n := by
    rw [Nat.succ_div_of_dvd ((dvd_iff_le i n).mpr late)]
    omega
  have two_more : 2 ∣ (i + 1) / 2 ^ n ↔ 2 ^ (n + 1) ∣ i + 1 := by
    rw [pow_succ, Nat.dvd_div_iff_mul_dvd ((dvd_iff_le i n).mpr late)]
  rw [misses]
  congr 1
  apply propext
  rw [next, two_more, dvd_iff_le]
  exact Nat.succ_le_iff

theorem outcome_of_lt (dumps : List (Dump ns)) (dump : Dump ns) (at_i : Request × Nat)
    (early : padicValNat 2 (at_i.2 + 1) < dumps.length) :
    underway dumps dump.body at_i = outcome dumps at_i ∧ outcome (dumps ++ [dump]) at_i = outcome dumps at_i := by
  have resolved : decide (padicValNat 2 (at_i.2 + 1) < dumps.length) = true := decide_eq_true early
  constructor
  · have passed : ¬(outcome dumps at_i).Waits ns := by
      intro waits
      exact Bool.noConfusion (resolved.symm.trans waits.2)
    exact if_neg passed
  · have also : decide (padicValNat 2 (at_i.2 + 1) < (dumps ++ [dump]).length) = true := by
      rw [List.length_append]
      exact decide_eq_true (Nat.lt_add_right _ early)
    rw [outcome, outcome, List.take_append_of_le_length (Nat.succ_le_of_lt early), also, resolved]

theorem outcome_of_le (dumps : List (Dump ns)) (dump : Dump ns) (at_i : Request × Nat)
    (late : dumps.length ≤ padicValNat 2 (at_i.2 + 1)) :
    underway dumps dump.body at_i = ⟨ns, at_i.1.feed (contents (dumps ++ [dump])), false⟩ ∧
      outcome (dumps ++ [dump]) at_i =
        ⟨ns, at_i.1.feed (contents (dumps ++ [dump])), !misses dumps.length at_i.2⟩ := by
  have all : (dumps ++ [dump]).length ≤ padicValNat 2 (at_i.2 + 1) + 1 := by
    rw [List.length_append]
    exact Nat.succ_le_succ late
  have pending : decide (padicValNat 2 (at_i.2 + 1) < dumps.length) = false := decide_eq_false (Nat.not_lt.mpr late)
  constructor
  · have waits : (outcome dumps at_i).Waits ns := ⟨rfl, pending⟩
    rw [underway, Closure.hearAll, if_pos waits, outcome]
    dsimp only
    rw [List.take_of_length_le (Nat.le_succ_of_le late), ← Request.feed_append, contents, contents, List.flatMap_append,
      List.flatMap_singleton]
  · rw [outcome, List.take_of_length_le all, misses_eq late, ← decide_not, List.length_append, List.length_singleton]
    congr 2
    apply propext
    omega

/-- At the end of a dump every second request is resolved of those that still wait. -/
theorem deliver_end (dumps : List (Dump ns)) (dump : Dump ns) (requests : List Request) (i : Nat) :
    deliver (endDump ns) (misses dumps.length i) ((requests.zipIdx i).map (underway dumps dump.body)) =
      (requests.zipIdx i).map (outcome (dumps ++ [dump])) := by
  induction requests generalizing i with
  | nil => rfl
  | cons request requests ih =>
    rw [List.zipIdx_cons, List.map_cons, List.map_cons, deliver]
    by_cases early : padicValNat 2 (i + 1) < dumps.length
    · obtain ⟨before, after⟩ := outcome_of_lt dumps dump (request, i) early
      have passed : ¬(outcome dumps (request, i)).Waits ns := by
        intro waits
        exact Bool.noConfusion ((decide_eq_true early).symm.trans waits.2)
      rw [before, after]
      refine (if_neg passed).trans ?_
      rw [← misses_succ_of_lt early, ih]
    · obtain ⟨before, after⟩ := outcome_of_le dumps dump (request, i) (Nat.not_lt.mp early)
      rw [before, after]
      refine (if_pos ⟨rfl, rfl⟩).trans ?_
      have next := ih (i + 1)
      rw [misses_succ_of_le (Nat.not_lt.mp early)] at next
      cases missed : misses dumps.length i with
      | true =>
        rw [missed] at next
        exact (if_pos rfl).trans (congrArg _ next)
      | false =>
        rw [missed] at next
        rw [if_neg Bool.false_ne_true, Request.each_endDump]
        exact congrArg _ next

theorem dump_eq (dumps : List (Dump ns)) (dump : Dump ns) (requests : List Request) :
    (dump.payloads.map Event.message).foldl Event.deliver (requests.zipIdx.map (outcome dumps)) =
      requests.zipIdx.map (outcome (dumps ++ [dump])) := by
  have heard : (requests.zipIdx.map (outcome dumps)).map (Closure.hearAll ns dump.body) =
      requests.zipIdx.map (underway dumps dump.body) := by
    rw [List.map_map]
    rfl
  have ended := deliver_end dumps dump requests 0
  rw [misses_zero] at ended
  rw [Dump.payloads, List.map_append, List.foldl_append, deliver_body dump.inside, heard]
  exact ended

theorem subscribe_eq (requests : List Request) (closures : List Closure) :
    (requests.map (Event.subscribe_ns_async ns)).foldl Event.deliver closures =
      closures ++ requests.map (Closure.mk ns · false) := by
  induction requests generalizing closures with
  | nil => exact (List.append_nil _).symm
  | cons request requests ih =>
    rw [List.map_cons, List.foldl_cons, ih, Event.deliver, List.append_assoc, List.map_cons, List.singleton_append]

theorem outcome_nil (requests : List Request) :
    requests.zipIdx.map (outcome ([] : List (Dump ns))) = requests.map (Closure.mk ns · false) := by
  have ignored : outcome ([] : List (Dump ns)) = (Closure.mk ns · false) ∘ Prod.fst := rfl
  rw [ignored, ← List.map_map, List.zipIdx_map_fst]

/-- Requests of one namespace that overlap, with any other events in between: the n-th one is resolved
at the end of the dump after as many as 2 goes into n, with all that has come until then. -/
theorem overlapping_dumps (requests : List Request) (dumps : List (Dump ns)) (events : List Event)
    (here : events.filter (·.ns = ns) =
      requests.map (Event.subscribe_ns_async ns) ++ (dumps.flatMap Dump.payloads).map Event.message) :
    (WSTransport.start.run events).closures.filter (·.ns = ns) = requests.zipIdx.map (outcome dumps) := by
  have dumped : ∀ dumps : List (Dump ns), ((dumps.flatMap Dump.payloads).map Event.message).foldl Event.deliver
      (requests.zipIdx.map (outcome ([] : List (Dump ns)))) = requests.zipIdx.map (outcome dumps) := by
    intro dumps
    induction dumps using List.reverseRecOn with
    | nil => rfl
    | append_singleton dumps dump ih =>
      rw [List.flatMap_append, List.map_append, List.foldl_append, ih, List.flatMap_singleton, dump_eq]
  rw [run_eq WSTransport.inv_start, run_filter, here, List.foldl_append, subscribe_eq]
  change List.foldl Event.deliver (requests.map (Closure.mk ns · false)) _ = _
  rw [← outcome_nil]
  exact dumped dumps

/-- A dump of one message. -/
def oneLine (ns text : String) : Dump ns :=
  ⟨[⟨ns, some text, none, none, none, false⟩], fun _ member => by rw [List.mem_singleton.mp member]; exact ⟨rfl, rfl⟩⟩

/-- Three requests and two dumps: the second request waits for both. -/
theorem overlapping_three :
    (WSTransport.start.run
      ((List.replicate 3 (Request.reqDumpTextFile "")).map (Event.subscribe_ns_async "/tmp/fs/dump/tas") ++
        ([oneLine "/tmp/fs/dump/tas" "one", oneLine "/tmp/fs/dump/tas" "two"].flatMap Dump.payloads).map
          Event.message)).closures.filter (·.ns = "/tmp/fs/dump/tas") =
      (List.replicate 3 (Request.reqDumpTextFile "")).zipIdx.map
        (outcome [oneLine "/tmp/fs/dump/tas" "one", oneLine "/tmp/fs/dump/tas" "two"]) :=
  overlapping_dumps _ _ _ (by decide)

/-- A request that is resolved hears nothing more. -/
theorem deliver_resolved {payload : Payload} (skip : Bool) (done closures : List Closure)
    (resolved : ∀ c ∈ done, c.resolved = true) :
    deliver payload skip (done ++ closures) = done ++ deliver payload skip closures := by
  induction done with
  | nil => rfl
  | cons c done ih =>
    rw [List.forall_mem_cons] at resolved
    have passed : ¬c.Waits payload.ns := fun waits => Bool.noConfusion (resolved.1.symm.trans waits.2)
    rw [List.cons_append, deliver, if_neg passed, ih resolved.2, List.cons_append]

theorem job_eq (request : Request) (dump : Dump ns) (done : List Closure) (resolved : ∀ c ∈ done, c.resolved = true) :
    (Event.subscribe_ns_async ns request :: dump.payloads.map .message).foldl Event.deliver done =
      done ++ [⟨ns, request.feed dump.body, true⟩] := by
  have silent : done.map (Closure.hearAll ns dump.body) = done := by
    calc done.map (Closure.hearAll ns dump.body)
        = done.map id := by
          apply List.map_congr_left
          intro c member
          exact if_neg fun waits => Bool.noConfusion ((resolved c member).symm.trans waits.2)
      _ = done := List.map_id done
  have heard : Closure.hearAll ns dump.body ⟨ns, request, false⟩ = ⟨ns, request.feed dump.body, false⟩ :=
    if_pos ⟨rfl, rfl⟩
  have ended : deliver (endDump ns) false [⟨ns, request.feed dump.body, false⟩] = [⟨ns, request.feed dump.body, true⟩] := by
    rw [deliver, if_pos ⟨rfl, rfl⟩, if_neg Bool.false_ne_true, Request.each_endDump]
    rfl
  rw [List.foldl_cons, Event.deliver, Dump.payloads, List.map_append, List.foldl_append, deliver_body dump.inside,
    List.map_append, silent, List.map_singleton, heard]
  exact (deliver_resolved false done _ resolved).trans (congrArg _ ended)

/-- Requests of one namespace that come one after the other, with any other events in between: each
gets what was sent for it. -/
theorem separate_dumps (jobs : List (Request × Dump ns)) (events : List Event)
    (here : events.filter (·.ns = ns) =
      jobs.flatMap fun job => .subscribe_ns_async ns job.1 :: job.2.payloads.map .message) :
    (WSTransport.start.run events).closures.filter (·.ns = ns) =
      jobs.map fun job => ⟨ns, job.1.feed job.2.body, true⟩ := by
  have one_by_one : ∀ done : List Closure, (∀ c ∈ done, c.resolved = true) →
      (jobs.flatMap fun job => Event.subscribe_ns_async ns job.1 :: job.2.payloads.map .message).foldl Event.deliver done =
        done ++ jobs.map fun job => ⟨ns, job.1.feed job.2.body, true⟩ := by
    clear here
    induction jobs with
    | nil =>
      intro done resolved
      exact (List.append_nil done).symm
    | cons job jobs ih =>
      intro done resolved
      have also : ∀ c ∈ done ++ [⟨ns, job.1.feed job.2.body, true⟩], c.resolved = true := by
        intro c member
        obtain earlier | now := List.mem_append.mp member
        · exact resolved c earlier
        · rw [List.mem_singleton.mp now]
      rw [List.flatMap_cons, List.foldl_append, job_eq job.1 job.2 done resolved, ih _ also, List.append_assoc,
        List.map_cons, List.singleton_append]
  rw [run_eq WSTransport.inv_start, run_filter, here]
  exact one_by_one [] fun _ member => absurd member List.not_mem_nil

/-- Two requests for one file, one after the other, with a message of another namespace in between. -/
theorem separate_two :
    (WSTransport.start.run
      ((Event.subscribe_ns_async "/tmp/fs/dump/tas" (.reqDumpTextFile "") ::
          (oneLine "/tmp/fs/dump/tas" "one").payloads.map .message) ++ .message (endDump "/tmp/fs/index/tas") ::
        .subscribe_ns_async "/tmp/fs/dump/tas" (.reqDumpTextFile "") ::
          (oneLine "/tmp/fs/dump/tas" "two").payloads.map .message)).closures.filter (·.ns = "/tmp/fs/dump/tas") =
      [⟨"/tmp/fs/dump/tas", .reqDumpTextFile "one", true⟩, ⟨"/tmp/fs/dump/tas", .reqDumpTextFile "two", true⟩] :=
  separate_dumps [(.reqDumpTextFile "", oneLine _ "one"), (.reqDumpTextFile "", oneLine _ "two")] _ (by decide)

end LotusKit.Front
