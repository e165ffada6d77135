import EsalsaMpi.Backend.Mailbox
import EsalsaMpi.Backend.Member.Parts

/-!
# Rows of collective calls

The members of a communicator make a row of calls, each at its own pace
(`Session`).  What they send over the wide area is a `data_message`: the gateways
keep the order of the messages from one process to another, but not between
different ones, and a message waits in the mailbox of the process it is for until
a receive finds it.  Messages for other communicators and with the tags of the
application arrive in between.  What a send waits for is left open: it may return
right away, or only when the matching receive has begun.

To the members this is a network in which the messages from one rank to another
with one tag keep their order (`Session.view`): every step of a session is a step
of this network or does not change it (`Session.view_step`).
-/

namespace EsalsaMpi

open ProcessNetwork MatchQueue

/-- The tag belongs to a collective operation. -/
def IsCollectiveTag (tag : Int) : Prop := maxTag - 8 ≤ tag ∧ tag < maxTag

instance (tag : Int) : Decidable (IsCollectiveTag tag) :=
  inferInstanceAs (Decidable (maxTag - 8 ≤ tag ∧ tag < maxTag))

/-- The tag of a lane over the wide area. -/
def Carrier.wideTag : Carrier → Option Int
  | .wideArea tag => some tag
  | _ => none

/-- How far a member is: the calls that it has not begun, the one it is in, and what
was in its buffer after each that has returned. -/
structure Progress (α β : Type) where
  todo : List (Caller α β)
  now : Option (Caller α β)
  noted : List β

/-- The members of a communicator in a row of calls: how far they are, the messages
in the libraries of the clusters, those at the gateways from one rank to
another, and the mailboxes. -/
structure Session (α β : Type) where
  member : Nat → Progress α β
  library : Lane → List (Packet α)
  gateways : Nat → Nat → List DataMessage
  mailbox : Nat → Mailbox

namespace Session

variable {α β : Type}

/-- A member has come further. -/
def advance (s : Session α β) (r : Nat) (p : Progress α β) : Session α β :=
  { s with member := Function.update s.member r p }

/-- A member is at `x` in its call. -/
def goOn (s : Session α β) (r : Nat) (x : Caller α β) : Session α β :=
  s.advance r { s.member r with now := some x }

/-- Messages in a library. -/
def setLibrary (s : Session α β) (lane : Lane) (l : List (Packet α)) : Session α β :=
  { s with library := Function.update s.library lane l }

/-- Messages at the gateways. -/
def setGateways (s : Session α β) (q r : Nat) (l : List DataMessage) : Session α β :=
  { s with gateways := Function.update s.gateways q (Function.update (s.gateways q) r l) }

/-- A mailbox. -/
def setMailbox (s : Session α β) (r : Nat) (mb : Mailbox) : Session α β :=
  { s with mailbox := Function.update s.mailbox r mb }

/-- A send that returns right away. -/
def Eager (_ : Session α β) (_ : Lane) : Prop := True

/-- The matching receive of a send on `lane` has begun. -/
def Awaited (s : Session α β) (lane : Lane) : Prop :=
  ∃ next, (s.member lane.dest).now = some (.recv lane next)

/-- Sends complete at the latest when their receive has begun. -/
def Prompt (ready : Session α β → Lane → Prop) : Prop := ∀ s lane, Awaited s lane → ready s lane

variable (members : List Pid) (n : Nat) (ready : Session α β → Lane → Prop)

/-- The steps of the members of communicator `n`, where a send completes when its lane
is `ready`. -/
inductive Step : Session α β → Session α β → Prop where
  | begin {s : Session α β} {r : Nat} {x : Caller α β} {rest : List (Caller α β)}
      (hnow : (s.member r).now = none) (htodo : (s.member r).todo = x :: rest) :
      Step s (s.advance r { s.member r with todo := rest, now := some x })
  | return {s : Session α β} {r : Nat} {b : β} (hnow : (s.member r).now = some (.done b)) :
      Step s (s.advance r { s.member r with now := none, noted := (s.member r).noted ++ [b] })
  | send {s : Session α β} {r : Nat} {lane : Lane} {xs : List α} {next : Caller α β}
      (hnow : (s.member r).now = some (.send lane (.elements xs) next)) (hready : ready s lane) :
      Step s ((s.goOn r next).setLibrary lane (s.library lane ++ [.elements xs]))
  | receive {s : Session α β} {r : Nat} {lane : Lane} {m : Packet α} {rest : List (Packet α)}
      {next : Packet α → Caller α β} (hnow : (s.member r).now = some (.recv lane next))
      (hlane : lane.carrier.wideTag = none) (hqueue : s.library lane = m :: rest) :
      Step s ((s.goOn r (next m)).setLibrary lane rest)
  | post {s : Session α β} {r d : Nat} {lane : Lane} {m : DataMessage} {next : Caller α β}
      (hnow : (s.member r).now = some (.send lane (.wideArea m) next)) (hready : ready s lane)
      (hdest : members[d]? = some m.dstPid) :
      Step s ((s.goOn r next).setGateways r d (s.gateways r d ++ [m]))
  | take {s : Session α β} {r : Nat} {lane : Lane} {tag : Int} {next : Packet α → Caller α β}
      {a : Arrival} {mb : Mailbox} (hnow : (s.member r).now = some (.recv lane next))
      (hlane : lane.carrier.wideTag = some tag)
      (hpoll : (s.mailbox r).poll ⟨n, lane.source, tag⟩ true = .found a mb) :
      Step s ((s.goOn r (next (.wideArea a.message))).setMailbox r mb)
  | wait {s : Session α β} {r : Nat} {lane : Lane} {tag : Int} {next : Packet α → Caller α β}
      {mb : Mailbox} (hnow : (s.member r).now = some (.recv lane next))
      (hlane : lane.carrier.wideTag = some tag)
      (hpoll : (s.mailbox r).poll ⟨n, lane.source, tag⟩ true = .pending mb) :
      Step s (s.setMailbox r mb)
  | deliver {s : Session α β} {q r seq : Nat} {m : DataMessage} {rest : List DataMessage}
      (hgateways : s.gateways q r = m :: rest) :
      Step s ((s.setGateways q r rest).setMailbox r ((s.mailbox r).arrive ⟨seq, m⟩))
  | other {s : Session α β} {r : Nat} {a : Arrival}
      (hother : a.message.comm ≠ n ∨ ¬ IsCollectiveTag a.message.tag)
      (hknown : ((s.mailbox r).queue a.message.comm).isSome) :
      Step s (s.setMailbox r ((s.mailbox r).arrive a))

/-- Before the first call; `calls` is what each member runs in each of them, and
`known` the communicators that each knows. -/
def start (calls : List (Nat → Caller α β)) (known : Nat → Nat → Bool) : Session α β where
  member r := ⟨calls.map fun call => call r, none, []⟩
  library := fun _ => []
  gateways := fun _ _ => []
  mailbox r := ⟨[], fun h => if known r h then some [] else none⟩

end Session

/-! ### What the members see -/

/-- The calls of a row, one after the other, with what they leave in the buffers. -/
def runCalls {α β : Type} : List (Caller α β) → List β → Caller α (List β)
  | [], noted => .done noted
  | x :: rest, noted => x >>= fun b => runCalls rest (noted ++ [b])

/-- What a member still does. -/
def Progress.left {α β : Type} (p : Progress α β) : Caller α (List β) :=
  match p.now with
  | none => runCalls p.todo p.noted
  | some x => x >>= fun b => runCalls p.todo (p.noted ++ [b])

/-- The messages of a lane over the wide area that are in the mailbox, and then
those at the gateways. -/
def wideQueue {α : Type} (n source : Nat) (tag : Int) (mb : Mailbox)
    (gateways : List DataMessage) : List (Packet α) :=
  ((((mb.contents n).map (·.message)) ++ gateways).filter fun m =>
    matchMessage m n source tag).map .wideArea

/-- The network that the members see. -/
def Session.view {α β : Type} (n : Nat) (s : Session α β) :
    ProcessNetwork.Network Nat Lane (Packet α) (List β) where
  procs r := (s.member r).left
  queue lane :=
    match lane.carrier.wideTag with
    | none => s.library lane
    | some tag =>
      if IsCollectiveTag tag then
        wideQueue n lane.source tag (s.mailbox lane.dest) (s.gateways lane.source lane.dest)
      else
        []

section WideQueue

variable {α : Type} {n source source' : Nat} {tag tag' : Int} {mb mb' : Mailbox}
  {gateways : List DataMessage} {m : DataMessage} {a : Arrival} {blocking : Bool}

/-- What a receive of a lane asks for. -/
theorem matchMessage_lane (htag : IsCollectiveTag tag) :
    matchMessage m n source tag = true ↔ m.comm = n ∧ m.source = source ∧ m.tag = tag := by
  have hsource : (source : Int) ≠ empiAnySource := by
    have : empiAnySource < 0 := by decide
    omega
  have hany : tag ≠ empiAnyTag := by
    have : empiAnyTag < maxTag - 8 := by decide
    have := htag.1
    omega
  rw [matchMessage_eq_true_iff]
  simp only [hsource, hany, false_or]
  constructor
  · rintro ⟨h₁, h₂, h₃⟩
    exact ⟨h₁.symm, h₂.symm, h₃.symm⟩
  · rintro ⟨h₁, h₂, h₃⟩
    exact ⟨h₁.symm, h₂.symm, h₃.symm⟩

theorem wideQueue_post (m : DataMessage) :
    wideQueue (α := α) n source tag mb (gateways ++ [m]) =
      wideQueue n source tag mb gateways ++
        if matchMessage m n source tag then [.wideArea m] else [] := by
  unfold wideQueue
  rw [← List.append_assoc, List.filter_append, List.map_append]
  by_cases hm : matchMessage m n source tag = true <;> simp [hm]

/-- A message that the gateways deliver stays in its place. -/
theorem wideQueue_deliver (seq : Nat) (hcomm : m.comm = n) :
    wideQueue (α := α) n source tag (mb.arrive ⟨seq, m⟩) gateways =
      wideQueue n source tag mb (m :: gateways) := by
  unfold wideQueue
  rw [Mailbox.contents_arrive, if_pos hcomm, List.map_append, List.append_assoc]
  rfl

/-- A message of another lane does not matter. -/
theorem wideQueue_arrive (ha : matchMessage a.message n source tag = false) :
    wideQueue (α := α) n source tag (mb.arrive a) gateways =
      wideQueue n source tag mb gateways := by
  unfold wideQueue
  rw [Mailbox.contents_arrive]
  split <;> simp [ha]

theorem wideQueue_pending (h : mb.poll ⟨n, source', tag'⟩ blocking = .pending mb') :
    wideQueue (α := α) n source tag mb' gateways = wideQueue n source tag mb gateways := by
  unfold wideQueue
  rw [Mailbox.poll_pending h]

/-- **A receive** finds the first message of its lane. -/
theorem wideQueue_found (h : mb.poll ⟨n, source, tag⟩ blocking = .found a mb') :
    wideQueue (α := α) n source tag mb gateways =
      .wideArea a.message :: wideQueue n source tag mb' gateways := by
  obtain ⟨htake, _⟩ := Mailbox.poll_found h
  obtain ⟨l₁, l₂, hcontents, hrest, ha, hnone⟩ := takeFirst_eq_some_iff.mp htake
  have hbefore : (l₁.map (·.message)).filter (fun m => matchMessage m n source tag) = [] := by
    rw [List.filter_map, List.map_eq_nil_iff]
    exact List.filter_eq_nil_iff.mpr fun b hb => by
      simpa [Pattern.Matches] using hnone b hb
  unfold wideQueue
  rw [hcontents, hrest]
  simp only [List.map_append, List.map_cons, List.filter_append, hbefore, List.nil_append,
    List.append_assoc, List.cons_append]
  rw [List.filter_cons, if_pos (show matchMessage a.message n source tag = true from ha),
    List.map_cons, List.filter_append, List.map_append]

/-- It leaves those of the others. -/
theorem wideQueue_found_ne (h : mb.poll ⟨n, source', tag'⟩ blocking = .found a mb')
    (ha : matchMessage a.message n source tag = false) :
    wideQueue (α := α) n source tag mb' gateways = wideQueue n source tag mb gateways := by
  obtain ⟨htake, _⟩ := Mailbox.poll_found h
  obtain ⟨l₁, l₂, hcontents, hrest, _, _⟩ := takeFirst_eq_some_iff.mp htake
  unfold wideQueue
  rw [hcontents, hrest]
  simp [ha]

end WideQueue

/-! ### Addresses -/

/-- The member with rank `r` may send the message on the lane: over the wide area,
what is in the header says the same as the lane. -/
def Addressed (members : List Pid) (n r : Nat) {α : Type} (lane : Lane) (m : Packet α) : Prop :=
  lane.source = r ∧
    match lane.carrier.wideTag, m with
    | some tag, .wideArea m =>
      IsCollectiveTag tag ∧ m.comm = n ∧ m.source = r ∧ m.tag = tag ∧
        members[lane.dest]? = some m.dstPid
    | none, .elements _ => True
    | _, _ => False

/-- The member with rank `r` may receive on the lane. -/
def Expected (r : Nat) (lane : Lane) : Prop :=
  lane.dest = r ∧ ∀ tag, lane.carrier.wideTag = some tag → IsCollectiveTag tag

/-- A caller that keeps to its lanes. -/
abbrev Polite (members : List Pid) (n r : Nat) {α β : Type} (x : Caller α β) : Prop :=
  Keeps (Addressed members n r) (Expected r) x

section Addresses

variable {α β : Type} {members : List Pid} {n r : Nat}

/-- Calls that are polite are so one after the other. -/
theorem polite_runCalls {todo : List (Caller α β)} (h : ∀ x ∈ todo, Polite members n r x)
    (noted : List β) : Polite members n r (runCalls todo noted) := by
  induction todo generalizing noted with
  | nil => exact .done noted
  | cons x rest ih =>
      exact (h x List.mem_cons_self).bind fun b =>
        ih (fun y hy => h y (List.mem_cons_of_mem x hy)) (noted ++ [b])

/-- **How the parts of a session fit together.** -/
structure Session.Inv (members : List Pid) (n : Nat) (s : Session α β) : Prop where
  todo : ∀ r, ∀ x ∈ (s.member r).todo, Polite members n r x
  now : ∀ r x, (s.member r).now = some x → Polite members n r x
  gateways : ∀ q r, ∀ m ∈ s.gateways q r, r < members.length ∧ m.comm = n ∧ m.source = q
  known : ∀ r < members.length, ((s.mailbox r).queue n).isSome
  incoming : ∀ r, ∀ a ∈ (s.mailbox r).incoming, ((s.mailbox r).queue a.message.comm).isSome

namespace Session

variable {s s' : Session α β}

@[simp] theorem advance_member_self (p : Progress α β) : (s.advance r p).member r = p :=
  Function.update_self _ _ _

@[simp] theorem advance_member_ne {i : Nat} (h : i ≠ r) (p : Progress α β) :
    (s.advance r p).member i = s.member i := Function.update_of_ne h _ _

theorem view_advance (p : Progress α β) :
    (s.advance r p).view n = ⟨Function.update (s.view n).procs r p.left, (s.view n).queue⟩ := by
  unfold view
  congr 1
  funext i
  by_cases hi : i = r
  · subst hi
    simp
  · simp [hi]

theorem view_advance_of_left {p : Progress α β} (h : p.left = (s.member r).left) :
    (s.advance r p).view n = s.view n := by
  rw [view_advance, h]
  show (⟨Function.update (s.view n).procs r ((s.view n).procs r), _⟩ :
    ProcessNetwork.Network Nat _ _ _) = _
  rw [Function.update_eq_self]

theorem view_queue_library {lane : Lane} (hlane : lane.carrier.wideTag = none) :
    (s.view n).queue lane = s.library lane := by
  simp only [view, hlane]

theorem view_queue_wide {lane : Lane} {tag : Int} (hlane : lane.carrier.wideTag = some tag)
    (htag : IsCollectiveTag tag) :
    (s.view n).queue lane =
      wideQueue n lane.source tag (s.mailbox lane.dest) (s.gateways lane.source lane.dest) := by
  simp only [view, hlane, if_pos htag]

theorem view_setLibrary {lane : Lane} (hlane : lane.carrier.wideTag = none)
    (l : List (Packet α)) :
    (s.setLibrary lane l).view n =
      ⟨(s.view n).procs, Function.update (s.view n).queue lane l⟩ := by
  unfold view
  congr 1
  funext lane'
  by_cases heq : lane' = lane
  · subst heq
    simp [hlane, setLibrary]
  · rw [Function.update_of_ne heq]
    simp [setLibrary, heq]

/-- A mailbox and the messages for it at the gateways may change together, as long as
every lane has the same messages. -/
theorem view_eq_of_wideQueue {s' : Session α β} (hmember : s'.member = s.member)
    (hlibrary : s'.library = s.library)
    (hwide : ∀ q i tag, IsCollectiveTag tag →
      wideQueue (α := α) n q tag (s'.mailbox i) (s'.gateways q i) =
        wideQueue n q tag (s.mailbox i) (s.gateways q i)) : s'.view n = s.view n := by
  unfold view
  rw [hmember, hlibrary]
  congr 1
  funext lane
  cases hlane : lane.carrier.wideTag with
  | none => rfl
  | some tag =>
      by_cases htag : IsCollectiveTag tag
      · simp only [if_pos htag, hwide _ _ _ htag]
      · simp only [if_neg htag]

/-- One lane over the wide area has other messages than before. -/
theorem view_eq_update {s' : Session α β} {lane : Lane} {tag : Int} {l : List (Packet α)}
    (hlane : lane.carrier.wideTag = some tag) (htag : IsCollectiveTag tag)
    (hmember : s'.member = s.member) (hlibrary : s'.library = s.library)
    (hself : wideQueue n lane.source tag (s'.mailbox lane.dest)
      (s'.gateways lane.source lane.dest) = l)
    (hwide : ∀ q i tag', IsCollectiveTag tag' → ¬ (q = lane.source ∧ i = lane.dest ∧ tag' = tag) →
      wideQueue (α := α) n q tag' (s'.mailbox i) (s'.gateways q i) =
        wideQueue n q tag' (s.mailbox i) (s.gateways q i)) :
    s'.view n = ⟨(s.view n).procs, Function.update (s.view n).queue lane l⟩ := by
  unfold view
  rw [hmember, hlibrary]
  congr 1
  funext lane'
  by_cases heq : lane' = lane
  · subst heq
    simp only [hlane, if_pos htag, Function.update_self, hself]
  · rw [Function.update_of_ne heq]
    cases hlane' : lane'.carrier.wideTag with
    | none => simp only [hlane']
    | some tag' =>
        by_cases htag' : IsCollectiveTag tag'
        · simp only [hlane', if_pos htag']
          apply hwide _ _ _ htag'
          rintro ⟨hsource, hdest, rfl⟩
          have hcarrier : ∀ {c : Carrier}, c.wideTag = some tag' → c = .wideArea tag' := by
            intro c hc
            cases c <;> cases hc
            rfl
          apply heq
          cases lane
          cases lane'
          simp only at hsource hdest hlane hlane'
          rw [hsource, hdest, hcarrier hlane, hcarrier hlane']
        · simp only [hlane', if_neg htag']

theorem left_of_now {p : Progress α β} {x : Caller α β} (h : p.now = some x) :
    p.left = x >>= fun b => runCalls p.todo (p.noted ++ [b]) := by
  rw [Progress.left, h]

/-- A member that goes on in its call. -/
theorem view_goOn (x : Caller α β) :
    (s.goOn r x).view n = ⟨Function.update (s.view n).procs r
      (x >>= fun b => runCalls (s.member r).todo ((s.member r).noted ++ [b])), (s.view n).queue⟩ :=
  view_advance _

/-- The first message of a lane is the one that a receive takes. -/
theorem view_take {lane : Lane} {tag : Int} {a : Arrival} {mb : Mailbox}
    (hlane : lane.carrier.wideTag = some tag) (htag : IsCollectiveTag tag)
    (hpoll : (s.mailbox lane.dest).poll ⟨n, lane.source, tag⟩ true = .found a mb) :
    ∃ rest, (s.view n).queue lane = .wideArea a.message :: rest ∧
      (s.setMailbox lane.dest mb).view n =
        ⟨(s.view n).procs, Function.update (s.view n).queue lane rest⟩ := by
  refine ⟨wideQueue n lane.source tag mb (s.gateways lane.source lane.dest), ?_,
    view_eq_update hlane htag ?_ ?_ ?_ ?_⟩
  · rw [view_queue_wide hlane htag]
    exact wideQueue_found hpoll
  · rfl
  · rfl
  · simp [setMailbox]
  · intro q i tag' htag' hne
    by_cases hi : i = lane.dest
    · subst hi
      obtain ⟨htake, _⟩ := Mailbox.poll_found hpoll
      have hmatch := of_takeFirst htake
      have ha := (matchMessage_lane htag).mp hmatch
      have hother : matchMessage a.message n q tag' = false := by
        rw [← Bool.not_eq_true, matchMessage_lane htag']
        rintro ⟨_, hsource, htag''⟩
        exact hne ⟨Int.ofNat.inj (hsource.symm.trans ha.2.1), rfl, htag''.symm.trans ha.2.2⟩
      simpa [setMailbox] using wideQueue_found_ne hpoll hother
    · simp [setMailbox, hi]

/-- A message that is posted comes last on its lane. -/
theorem view_post {lane : Lane} {tag : Int} {m : DataMessage}
    (hlane : lane.carrier.wideTag = some tag) (htag : IsCollectiveTag tag) (hcomm : m.comm = n)
    (hsource : m.source = lane.source) (hmtag : m.tag = tag) :
    (s.setGateways lane.source lane.dest
        (s.gateways lane.source lane.dest ++ [m])).view n =
      ⟨(s.view n).procs, Function.update (s.view n).queue lane
        ((s.view n).queue lane ++ [.wideArea m])⟩ := by
  refine view_eq_update hlane htag ?_ ?_ ?_ ?_
  · rfl
  · rfl
  · rw [view_queue_wide hlane htag]
    simp only [setGateways, Function.update_self, wideQueue_post,
      (matchMessage_lane htag).mpr ⟨hcomm, hsource, hmtag⟩, if_true]
  · intro q i tag' htag' hne
    by_cases hqi : q = lane.source ∧ i = lane.dest
    · obtain ⟨rfl, rfl⟩ := hqi
      have hother : ¬ matchMessage m n lane.source tag' = true := by
        rw [matchMessage_lane htag']
        rintro ⟨_, _, htag''⟩
        exact hne ⟨rfl, rfl, htag''.symm.trans hmtag⟩
      simp only [setGateways, Function.update_self, wideQueue_post, if_neg hother, List.append_nil]
    · have hsame : (s.setGateways lane.source lane.dest
          (s.gateways lane.source lane.dest ++ [m])).gateways q i = s.gateways q i := by
        by_cases hq : q = lane.source
        · subst hq
          have hi : i ≠ lane.dest := fun hi => hqi ⟨rfl, hi⟩
          simp [setGateways, hi]
        · simp [setGateways, hq]
      rw [hsame]
      rfl

/-- What the gateways deliver stays in its place. -/
theorem view_deliver {q seq : Nat} {m : DataMessage} {rest : List DataMessage}
    (hgateways : s.gateways q r = m :: rest) (hcomm : m.comm = n) (hsource : m.source = q) :
    ((s.setGateways q r rest).setMailbox r ((s.mailbox r).arrive ⟨seq, m⟩)).view n =
      s.view n := by
  refine view_eq_of_wideQueue ?_ ?_ ?_
  · rfl
  · rfl
  intro q' i tag htag
  by_cases hi : i = r
  · subst hi
    by_cases hq : q' = q
    · subst hq
      simp only [setMailbox, setGateways, Function.update_self, wideQueue_deliver seq hcomm,
        hgateways]
    · have hother : matchMessage (⟨seq, m⟩ : Arrival).message n q' tag = false := by
        rw [← Bool.not_eq_true, matchMessage_lane htag]
        rintro ⟨_, hsource', _⟩
        exact hq (Int.ofNat.inj (hsource'.symm.trans hsource))
      simp only [setMailbox, setGateways, Function.update_self, Function.update_of_ne hq,
        wideQueue_arrive hother]
  · have hsame : ((s.setGateways q r rest).setMailbox r
        ((s.mailbox r).arrive ⟨seq, m⟩)).gateways q' i = s.gateways q' i := by
      by_cases hq : q' = q
      · subst hq
        simp [setMailbox, setGateways, hi]
      · simp [setMailbox, setGateways, hq]
    rw [hsame]
    simp [setMailbox, setGateways, hi]

theorem view_arrive {a : Arrival}
    (hother : a.message.comm ≠ n ∨ ¬ IsCollectiveTag a.message.tag) :
    (s.setMailbox r ((s.mailbox r).arrive a)).view n = s.view n := by
  refine view_eq_of_wideQueue ?_ ?_ ?_
  · rfl
  · rfl
  intro q i tag htag
  by_cases hi : i = r
  · subst hi
    have ha : matchMessage a.message n q tag = false := by
      rw [← Bool.not_eq_true, matchMessage_lane htag]
      rintro ⟨hcomm, _, htag'⟩
      rcases hother with h | h
      · exact h hcomm
      · exact h (htag' ▸ htag)
    simp only [setMailbox, Function.update_self, wideQueue_arrive ha]
  · simp [setMailbox, hi]

theorem view_wait {q : Nat} {tag : Int} {mb : Mailbox}
    (hpoll : (s.mailbox r).poll ⟨n, q, tag⟩ true = .pending mb) :
    (s.setMailbox r mb).view n = s.view n := by
  refine view_eq_of_wideQueue ?_ ?_ ?_
  · rfl
  · rfl
  intro q' i tag' _
  by_cases hi : i = r
  · subst hi
    simp only [setMailbox, Function.update_self, wideQueue_pending hpoll]
  · simp [setMailbox, hi]

/-- What a polite member sends. -/
theorem Inv.addressed (h : s.Inv members n) {lane : Lane} {m : Packet α} {next : Caller α β}
    (hnow : (s.member r).now = some (.send lane m next)) :
    Addressed members n r lane m ∧ Polite members n r next := by
  cases h.now r _ hnow with
  | send hmay hnext => exact ⟨hmay, hnext⟩

/-- Where it receives. -/
theorem Inv.expected (h : s.Inv members n) {lane : Lane} {next : Packet α → Caller α β}
    (hnow : (s.member r).now = some (.recv lane next)) :
    Expected r lane ∧ ∀ m, Polite members n r (next m) := by
  cases h.now r _ hnow with
  | recv hmay hnext => exact ⟨hmay, hnext⟩

/-- A message of a member over the wide area. -/
theorem Inv.posted (h : s.Inv members n) (hnodup : members.Nodup) {d : Nat} {lane : Lane}
    {m : DataMessage} {next : Caller α β}
    (hnow : (s.member r).now = some (.send lane (.wideArea m) next))
    (hdest : members[d]? = some m.dstPid) :
    ∃ tag, lane.carrier.wideTag = some tag ∧ IsCollectiveTag tag ∧ lane.source = r ∧
      lane.dest = d ∧ m.comm = n ∧ m.source = r ∧ m.tag = tag := by
  obtain ⟨hsource, hmay⟩ := (h.addressed hnow).1
  cases hlane : lane.carrier.wideTag with
  | none =>
      rw [hlane] at hmay
      cases hmay
  | some tag =>
      rw [hlane] at hmay
      obtain ⟨htag, hcomm, hmsource, hmtag, hmdest⟩ := hmay
      have hlt := (List.getElem?_eq_some_iff.mp hmdest).1
      have hd := (List.getElem?_inj hlt hnodup).mp (hmdest.trans hdest.symm)
      exact ⟨tag, rfl, htag, hsource, hd, hcomm, hmsource, hmtag⟩

/-- A message in the library is on a lane of the library. -/
theorem Inv.sent (h : s.Inv members n) {lane : Lane} {xs : List α} {next : Caller α β}
    (hnow : (s.member r).now = some (.send lane (.elements xs) next)) :
    lane.carrier.wideTag = none := by
  obtain ⟨_, hmay⟩ := (h.addressed hnow).1
  cases hlane : lane.carrier.wideTag with
  | none => rfl
  | some tag =>
      rw [hlane] at hmay
      cases hmay

/-- A member that begins its next call. -/
theorem view_begin {x : Caller α β} {rest : List (Caller α β)}
    (hnow : (s.member r).now = none) (htodo : (s.member r).todo = x :: rest) :
    (s.advance r { s.member r with todo := rest, now := some x }).view n = s.view n := by
  apply view_advance_of_left
  rw [Progress.left, Progress.left, hnow, htodo]
  rfl

/-- A member whose call returns. -/
theorem view_return {b : β} (hnow : (s.member r).now = some (.done b)) :
    (s.advance r { s.member r with now := none, noted := (s.member r).noted ++ [b] }).view n =
      s.view n := by
  apply view_advance_of_left
  rw [left_of_now hnow]
  rfl

/-- A member that sends over the library. -/
theorem view_send (h : s.Inv members n) {lane : Lane} {xs : List α} {next : Caller α β}
    (hnow : (s.member r).now = some (.send lane (.elements xs) next)) :
    ∃ x l, Use (s.view n) true r lane x l ∧
      ((s.goOn r next).setLibrary lane (s.library lane ++ [.elements xs])).view n =
        (s.view n).put r x lane l := by
  have hlane := h.sent hnow
  have hprocs := left_of_now hnow
  refine ⟨_, _, Use.send (s := s.view n) hprocs, ?_⟩
  rw [view_setLibrary hlane, view_goOn, ← view_queue_library hlane]
  rfl

/-- A member that receives from the library. -/
theorem view_receive {lane : Lane} {m : Packet α} {rest : List (Packet α)}
    {next : Packet α → Caller α β} (hnow : (s.member r).now = some (.recv lane next))
    (hlane : lane.carrier.wideTag = none) (hqueue : s.library lane = m :: rest) :
    ∃ x l, Use (s.view n) false r lane x l ∧
      ((s.goOn r (next m)).setLibrary lane rest).view n = (s.view n).put r x lane l := by
  have hprocs := left_of_now hnow
  refine ⟨_, _, Use.recv (s := s.view n) hprocs ((view_queue_library hlane).trans hqueue), ?_⟩
  rw [view_setLibrary hlane, view_goOn]
  rfl

/-- A member that sends over the wide area. -/
theorem view_sendWide (hnodup : members.Nodup) (h : s.Inv members n) {d : Nat} {lane : Lane}
    {m : DataMessage} {next : Caller α β}
    (hnow : (s.member r).now = some (.send lane (.wideArea m) next))
    (hdest : members[d]? = some m.dstPid) :
    ∃ x l, Use (s.view n) true r lane x l ∧
      ((s.goOn r next).setGateways r d (s.gateways r d ++ [m])).view n =
        (s.view n).put r x lane l := by
  obtain ⟨tag, hlane, htag, rfl, rfl, hcomm, hsource, hmtag⟩ := h.posted hnodup hnow hdest
  have hprocs := left_of_now hnow
  refine ⟨_, _, Use.send (s := s.view n) hprocs, ?_⟩
  have hpost := view_post (s := s.goOn lane.source next) hlane htag hcomm hsource hmtag
  rw [view_goOn] at hpost
  rw [show s.gateways lane.source lane.dest = (s.goOn lane.source next).gateways lane.source
    lane.dest from rfl, hpost]
  rfl

/-- A member whose search finds a message. -/
theorem view_found (h : s.Inv members n) {lane : Lane} {tag : Int}
    {next : Packet α → Caller α β} {a : Arrival} {mb : Mailbox}
    (hnow : (s.member r).now = some (.recv lane next)) (hlane : lane.carrier.wideTag = some tag)
    (hpoll : (s.mailbox r).poll ⟨n, lane.source, tag⟩ true = .found a mb) :
    ∃ x l, Use (s.view n) false r lane x l ∧
      ((s.goOn r (next (.wideArea a.message))).setMailbox r mb).view n =
        (s.view n).put r x lane l := by
  obtain ⟨⟨rfl, hexpected⟩, _⟩ := h.expected hnow
  have htag := hexpected tag hlane
  have hprocs := left_of_now hnow
  obtain ⟨rest, hqueue, htake⟩ := view_take
    (s := s.goOn lane.dest (next (.wideArea a.message))) hlane htag hpoll
  rw [view_goOn] at hqueue htake
  refine ⟨_, _, Use.recv (s := s.view n) hprocs hqueue, ?_⟩
  rw [htake]
  rfl

/-- **Every step of a session** is one of the network that the members see, or does
not change it. -/
theorem view_step {ready : Session α β → Lane → Prop} (hnodup : members.Nodup)
    (h : s.Inv members n) (hstep : Step members n ready s s') :
    s'.view n = s.view n ∨ ProcessNetwork.Step (s.view n) (s'.view n) := by
  have huse : ∀ {k : Bool} {r : Nat} {lane : Lane} {t : Session α β},
      (∃ x l, Use (s.view n) k r lane x l ∧ t.view n = (s.view n).put r x lane l) →
        ProcessNetwork.Step (s.view n) (t.view n) := by
    rintro k r lane t ⟨x, l, huse, heq⟩
    rw [heq]
    exact huse.step
  cases hstep with
  | begin hnow htodo => exact Or.inl (view_begin hnow htodo)
  | «return» hnow => exact Or.inl (view_return hnow)
  | send hnow _ => exact Or.inr (huse (view_send h hnow))
  | receive hnow hlane hqueue => exact Or.inr (huse (view_receive hnow hlane hqueue))
  | post hnow _ hdest => exact Or.inr (huse (view_sendWide hnodup h hnow hdest))
  | take hnow hlane hpoll => exact Or.inr (huse (view_found h hnow hlane hpoll))
  | wait _ _ hpoll => exact Or.inl (view_wait hpoll)
  | deliver hgateways =>
      obtain ⟨_, hcomm, hsource⟩ := h.gateways _ _ _ (by rw [hgateways]; exact List.mem_cons_self)
      exact Or.inl (view_deliver hgateways hcomm hsource)
  | other hother _ => exact Or.inl (view_arrive hother)

end Session

end Addresses

end EsalsaMpi
