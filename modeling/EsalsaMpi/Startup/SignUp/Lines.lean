import EsalsaMpi.Startup.Exchange.Codecs
import EsalsaMpi.Startup.SignUp.Program

/-!
# The connections of the sign-up

What a thread of the server and the master gateway of its connection know of each other, as long
as the thread has not failed: what the one has sent is what the other has read and what is on its
way (`Line`).  So the master gateway sends what the thread expects, and takes for its table what
the thread has sent for it.  The other connections touch none of this; they only add to what the
server holds of the gateways.
-/

namespace EsalsaMpi

namespace SignUp

open Networks Startup CommandLine

variable {cfg : Configuration} {text : List UInt8 → String} {arrivals : Arrivals}
  {g : MasterGateway} {gateways gateways' : Nat → Nat → Option HeldInfo}
  {t : Thread} {m : Master} {toServer : List ToServer} {toMaster : List ToMaster}
  {i index number src : Nat} {c : Cluster} {numbers : Numbers} {table : List HeldInfo}

/-! ### What is sent and read -/

/-- What the server replies for cluster `i`. -/
def numbersAt (cfg : Configuration) (i : Nat) : Numbers :=
  match cfg.clusters[i]? with
  | some c => numbersFor cfg i c
  | none => ⟨⟨0, 0, 0, 0⟩, []⟩

theorem numbersAt_eq (hc : cfg.clusters[i]? = some c) : numbersAt cfg i = numbersFor cfg i c := by
  rw [numbersAt, hc]

/-- The addresses of gateway `src`. -/
def MasterGateway.info (g : MasterGateway) (numbers : Numbers) (src : Nat) : ToServer :=
  .gatewayInfo numbers.reply.clusterRank (UInt32.ofNat src) (g.addresses src)

/-- The name, and the addresses of the first gateways. -/
def MasterGateway.infos (g : MasterGateway) (numbers : Numbers) (n : Nat) : List ToServer :=
  .handshake g.name :: (List.range n).map (g.info numbers)

/-- What a master gateway has sent. -/
def Master.sent (g : MasterGateway) : Master → List ToServer
  | .connecting | .connected => []
  | .waiting => [.handshake g.name]
  | .sending numbers src => g.infos numbers src
  | .receiving numbers _ | .finished numbers _ => g.infos numbers numbers.reply.gatewayCount.toNat
  | .failed => [.handshake g.name, .closed]

/-- What a master gateway has received. -/
def Master.received : Master → List ToMaster
  | .sending numbers _ => [.accepted numbers]
  | .receiving numbers table | .finished numbers table =>
    .accepted numbers :: table.map ToMaster.gateway
  | _ => []

/-- What a thread has read. -/
def Thread.read (cfg : Configuration) (g : MasterGateway) : Thread → List ToServer
  | .found _ | .connected _ => [.handshake g.name]
  | .receiving i index => g.infos (numbersAt cfg i) index
  | .sending i _ | .finished i => g.infos (numbersAt cfg i) cfg.numberOfGatewaysPerCluster
  | _ => []

/-- The number of gateways that a thread has told of. -/
def Thread.told (cfg : Configuration) : Thread → Nat
  | .sending _ number => number
  | .finished _ => (allGateways cfg).length
  | _ => 0

/-- What the server tells of the first gateways. -/
def tell (cfg : Configuration) (gateways : Nat → Nat → Option HeldInfo) (number : Nat) :
    List ToMaster :=
  ((allGateways cfg).take number).filterMap fun p => (gateways p.1 p.2).map ToMaster.gateway

/-- What a thread has written. -/
def Thread.written (cfg : Configuration) (gateways : Nat → Nat → Option HeldInfo) :
    Thread → List ToMaster
  | .receiving i _ => [.accepted (numbersAt cfg i)]
  | .sending i number => .accepted (numbersAt cfg i) :: tell cfg gateways number
  | .finished i => .accepted (numbersAt cfg i) :: tell cfg gateways (allGateways cfg).length
  | _ => []

/-- The master gateway has these numbers, and has accepted them. -/
structure Knows (cfg : Configuration) (g : MasterGateway) (numbers : Numbers) : Prop where
  replied : ∃ i c, cfg.clusters[i]? = some c ∧ numbers = numbersFor cfg i c
  accepted : numbers.reply.accepted
  size : numbers.reply.localApplicationSize + numbers.reply.gatewayCount = UInt32.ofNat g.size

/-- How far the master gateway has come. -/
def Master.Sound (cfg : Configuration) (g : MasterGateway) : Master → Prop
  | .sending numbers src => Knows cfg g numbers ∧ src < cfg.numberOfGatewaysPerCluster
  | .receiving numbers table => Knows cfg g numbers ∧ table.length < (allGateways cfg).length
  | .finished numbers table => Knows cfg g numbers ∧ table.length = (allGateways cfg).length
  | _ => True

/-- **A connection.** -/
structure Line (cfg : Configuration) (g : MasterGateway)
    (gateways : Nat → Nat → Option HeldInfo) (t : Thread) (m : Master)
    (toServer : List ToServer) (toMaster : List ToMaster) : Prop where
  idle : t = .idle ↔ m = .connecting
  sent : t ≠ .failed → m.sent g = t.read cfg g ++ toServer
  written : t ≠ .failed → m ≠ .failed → t.written cfg gateways = m.received ++ toMaster
  told : t.told cfg ≤ (allGateways cfg).length
  held : ∀ p ∈ (allGateways cfg).take (t.told cfg), (gateways p.1 p.2).isSome
  sound : m.Sound cfg g
  replies : ∀ numbers, .accepted numbers ∈ toMaster →
    ∃ i c, cfg.clusters[i]? = some c ∧ numbers = numbersFor cfg i c

/-- The connection of the master gateway `k`. -/
def State.Line (cfg : Configuration) (arrivals : Arrivals) (s : State) (k : Nat) : Prop :=
  SignUp.Line cfg (arrivals.gateway k) s.gateways (s.thread k) (s.master k) (s.toServer k)
    (s.toMaster k)

theorem infos_succ (g : MasterGateway) (numbers : Numbers) (n : Nat) :
    g.infos numbers (n + 1) = g.infos numbers n ++ [g.info numbers n] := by
  rw [MasterGateway.infos, List.range_succ, List.map_append]
  rfl

/-- The numbers of a configuration are not too large for a reply. -/
theorem counts (cfg : Configuration) (i : Nat) (c : Cluster) :
    (numbersFor cfg i c).reply.gatewayCount.toNat = cfg.numberOfGatewaysPerCluster ∧
      (numbersFor cfg i c).total = (allGateways cfg).length := by
  have hgateways := cfg.gateways_lt
  have hclusters : cfg.clusters.length < 256 := cfg.clusters_lt
  have hcount : (numbersFor cfg i c).reply.gatewayCount.toNat = cfg.numberOfGatewaysPerCluster :=
    UInt32.toNat_ofNat_of_lt' (Nat.lt_trans hgateways (by decide))
  have hlength : (numbersFor cfg i c).reply.clusterCount.toNat = cfg.clusters.length :=
    UInt32.toNat_ofNat_of_lt' (Nat.lt_trans hclusters (by decide))
  refine ⟨hcount, ?_⟩
  rw [Numbers.total, hcount, hlength, allGateways, gatewayPairs, List.length_flatMap]
  simp

theorem Knows.counts (h : Knows cfg g numbers) :
    numbers.reply.gatewayCount.toNat = cfg.numberOfGatewaysPerCluster ∧
      numbers.total = (allGateways cfg).length := by
  obtain ⟨i, c, _, rfl⟩ := h.replied
  exact SignUp.counts cfg i c

/-- The server does not forget what it holds. -/
def Extends (gateways gateways' : Nat → Nat → Option HeldInfo) : Prop :=
  ∀ i index held, gateways i index = some held → gateways' i index = some held

theorem tell_extends (hmore : Extends gateways gateways')
    (hheld : ∀ p ∈ (allGateways cfg).take number, (gateways p.1 p.2).isSome) :
    tell cfg gateways' number = tell cfg gateways number := by
  refine List.filterMap_congr fun p hp => ?_
  obtain ⟨held, hp⟩ := Option.isSome_iff_exists.mp (hheld p hp)
  rw [hp, hmore _ _ _ hp]

/-- **Another connection** goes on. -/
theorem Line.extend (h : Line cfg g gateways t m toServer toMaster)
    (hmore : Extends gateways gateways') : Line cfg g gateways' t m toServer toMaster := by
  have hwritten : t.written cfg gateways' = t.written cfg gateways := by
    have hheld := h.held
    cases t with
    | sending i number => exact congrArg _ (tell_extends hmore hheld)
    | finished i => exact congrArg _ (tell_extends hmore hheld)
    | _ => rfl
  refine { h with written := ?_, held := fun p hp => ?_ }
  · rw [hwritten]
    exact h.written
  · obtain ⟨held, hheld⟩ := Option.isSome_iff_exists.mp (h.held p hp)
    rw [hmore _ _ _ hheld]
    rfl

/-- A thread that fails. -/
theorem Line.fail (h : Line cfg g gateways t m toServer toMaster) (hnone : t ≠ .idle)
    {toServer' : List ToServer} {toMaster' : List ToMaster}
    (hreplies : ∀ numbers, .accepted numbers ∈ toMaster' → .accepted numbers ∈ toMaster) :
    Line cfg g gateways .failed m toServer' toMaster' where
  idle := iff_of_false (by simp) fun hm => hnone (h.idle.mpr hm)
  sent hne := absurd rfl hne
  written hne := absurd rfl hne
  told := Nat.zero_le _
  held := by simp [Thread.told]
  sound := h.sound
  replies numbers hm := h.replies numbers (hreplies numbers hm)

/-! ### The steps of the master gateway -/

theorem Line.accept (h : Line cfg g gateways .idle .connecting toServer toMaster) :
    Line cfg g gateways .accepted .connected toServer toMaster :=
  { h with
    idle := iff_of_false (by simp) (by simp)
    sent := fun _ => h.sent (by simp)
    written := fun _ _ => h.written (by simp) (by simp)
    sound := trivial }

theorem Line.sendHandshake (h : Line cfg g gateways t .connected toServer toMaster) :
    Line cfg g gateways t .waiting (toServer ++ [.handshake g.name]) toMaster :=
  { h with
    idle := iff_of_false (fun ht => by simpa using h.idle.mp ht) (by simp)
    sent := fun ht => by
      rw [← List.append_assoc, ← h.sent ht]
      rfl
    written := fun ht _ => h.written ht (by simp)
    sound := trivial }

/-- The reply is accepted. -/
theorem Line.receiveReply {rest : List ToMaster}
    (h : Line cfg g gateways t .waiting toServer (.accepted numbers :: rest))
    (haccepted : numbers.reply.accepted)
    (hsize : numbers.reply.localApplicationSize + numbers.reply.gatewayCount =
      UInt32.ofNat g.size) :
    Line cfg g gateways t (.sending numbers 0) toServer rest where
  idle := iff_of_false (fun ht => by simpa using h.idle.mp ht) (by simp)
  sent := h.sent
  written ht _ := h.written ht (by simp)
  told := h.told
  held := h.held
  sound := ⟨⟨h.replies numbers List.mem_cons_self, haccepted, hsize⟩, cfg.gateways_pos⟩
  replies numbers' hm := h.replies numbers' (List.mem_cons_of_mem _ hm)

/-- The reply is not accepted. -/
theorem Line.refuse {x : ToMaster} {rest : List ToMaster}
    (h : Line cfg g gateways t .waiting toServer (x :: rest)) :
    Line cfg g gateways t .failed (toServer ++ [.closed]) rest where
  idle := iff_of_false (fun ht => by simpa using h.idle.mp ht) (by simp)
  sent ht := by
    rw [← List.append_assoc, ← h.sent ht]
    rfl
  written _ hm := absurd rfl hm
  told := h.told
  held := h.held
  sound := trivial
  replies numbers' hm := h.replies numbers' (List.mem_cons_of_mem _ hm)

theorem Line.sendAddresses (h : Line cfg g gateways t (.sending numbers src) toServer toMaster) :
    Line cfg g gateways t
      (if src + 1 < numbers.reply.gatewayCount.toNat then .sending numbers (src + 1)
        else .receiving numbers [])
      (toServer ++ [g.info numbers src]) toMaster := by
  obtain ⟨hknows, hsrc⟩ := h.sound
  have hcount := hknows.counts.1
  have hsent : t ≠ .failed → g.infos numbers (src + 1) =
      t.read cfg g ++ (toServer ++ [g.info numbers src]) := by
    intro ht
    rw [infos_succ, ← List.append_assoc, ← h.sent ht]
    rfl
  split
  · rename_i hlt
    refine { h with
      idle := iff_of_false (fun ht => by simpa using h.idle.mp ht) (by simp)
      sent := hsent
      written := fun ht _ => h.written ht (by simp)
      sound := ⟨hknows, ?_⟩ }
    rwa [← hcount]
  · rename_i hlast
    have hall : numbers.reply.gatewayCount.toNat = src + 1 := by omega
    refine { h with
      idle := iff_of_false (fun ht => by simpa using h.idle.mp ht) (by simp)
      sent := fun ht => ?_
      written := fun ht _ => h.written ht (by simp)
      sound := ⟨hknows, ?_⟩ }
    · rw [Master.sent, hall]
      exact hsent ht
    · rw [List.length_nil, ← hknows.counts.2, Numbers.total]
      have haccepted := (HandshakeReply.accepted_iff _).mp hknows.accepted
      exact Nat.mul_pos (Nat.zero_lt_of_lt haccepted.1.1) haccepted.2.2

theorem Line.receiveGateway {held : HeldInfo} {rest : List ToMaster}
    (h : Line cfg g gateways t (.receiving numbers table) toServer (.gateway held :: rest)) :
    Line cfg g gateways t
      (if table.length + 1 < numbers.total then .receiving numbers (table ++ [held])
        else .finished numbers (table ++ [held])) toServer rest := by
  obtain ⟨hknows, hlength⟩ := h.sound
  have htotal := hknows.counts.2
  have hwritten : t ≠ .failed → t.written cfg gateways =
      (.accepted numbers :: (table ++ [held]).map ToMaster.gateway) ++ rest := by
    intro ht
    rw [h.written ht (by simp), List.map_append, Master.received]
    simp
  have hreplies : ∀ numbers', .accepted numbers' ∈ rest →
      ∃ i c, cfg.clusters[i]? = some c ∧ numbers' = numbersFor cfg i c :=
    fun numbers' hm => h.replies numbers' (List.mem_cons_of_mem _ hm)
  have hlength' : (table ++ [held]).length = table.length + 1 := List.length_append
  split
  · exact { h with
      idle := iff_of_false (fun ht => by simpa using h.idle.mp ht) (by simp)
      sent := h.sent
      written := fun ht _ => hwritten ht
      sound := ⟨hknows, by omega⟩
      replies := hreplies }
  · exact { h with
      idle := iff_of_false (fun ht => by simpa using h.idle.mp ht) (by simp)
      sent := h.sent
      written := fun ht _ => hwritten ht
      sound := ⟨hknows, by omega⟩
      replies := hreplies }

/-- Something else ends the master gateway; no thread sends it that has not failed. -/
theorem Line.confuse {x : ToMaster} {rest : List ToMaster}
    (h : Line cfg g gateways t (.receiving numbers table) toServer (x :: rest))
    (hx : ∀ held, x ≠ .gateway held) : t = .failed := by
  by_contra ht
  have hwritten := h.written ht (by simp)
  have htail : ∀ (number : Nat) (l : List ToMaster),
      tell cfg gateways number = l ++ x :: rest → False := by
    intro number l hl
    have hmem : x ∈ tell cfg gateways number := by
      rw [hl]
      simp
    obtain ⟨p, _, hp⟩ := List.mem_filterMap.mp hmem
    obtain ⟨held, _, rfl⟩ := Option.map_eq_some_iff.mp hp
    exact hx held rfl
  cases t with
  | failed => exact ht rfl
  | receiving i index =>
      simp only [Thread.written, Master.received, List.cons_append, List.cons.injEq] at hwritten
      simp at hwritten
  | sending i number =>
      simp only [Thread.written, Master.received, List.cons_append, List.cons.injEq] at hwritten
      exact htail _ _ hwritten.2
  | finished i =>
      simp only [Thread.written, Master.received, List.cons_append, List.cons.injEq] at hwritten
      exact htail _ _ hwritten.2
  | _ => simp [Thread.written, Master.received] at hwritten

/-! ### The steps of the thread -/

/-- The thread reads a name: it is that of the master gateway. -/
theorem Line.name {x : ToServer} {rest : List ToServer}
    (h : Line cfg g gateways .accepted m (x :: rest) toMaster) :
    x = .handshake g.name ∧ m.sent g = .handshake g.name :: rest := by
  have hsent : m.sent g = x :: rest := h.sent (by simp)
  suffices hx : x = .handshake g.name by
    rw [hx] at hsent
    exact ⟨hx, hsent⟩
  cases m <;> simp only [Master.sent, MasterGateway.infos, List.cons.injEq, List.nil_eq,
    reduceCtorEq] at hsent <;> exact hsent.1.symm

theorem Line.getCluster {x : ToServer} {rest : List ToServer}
    (h : Line cfg g gateways .accepted m (x :: rest) toMaster) (i : Nat) :
    Line cfg g gateways (.found i) m rest toMaster :=
  { h with
    idle := iff_of_false (by simp) fun hm => by simpa using h.idle.mpr hm
    sent := fun _ => h.name.2
    written := fun _ => h.written (by simp) }

theorem Line.setConnection (h : Line cfg g gateways (.found i) m toServer toMaster) :
    Line cfg g gateways (.connected i) m toServer toMaster :=
  { h with
    idle := iff_of_false (by simp) fun hm => by simpa using h.idle.mpr hm
    sent := fun _ => h.sent (by simp)
    written := fun _ => h.written (by simp) }

theorem Line.sendHandshakeReply (h : Line cfg g gateways (.connected i) m toServer toMaster)
    (hc : cfg.clusters[i]? = some c) :
    Line cfg g gateways (.receiving i 0) m toServer
      (toMaster ++ [.accepted (numbersFor cfg i c)]) where
  idle := iff_of_false (by simp) fun hm => by simpa using h.idle.mpr hm
  sent _ := h.sent (by simp)
  written _ hm := by
    have hwritten := h.written (by simp) hm
    rw [← List.append_assoc, ← hwritten, Thread.written, numbersAt_eq hc]
    rfl
  told := Nat.zero_le _
  held := h.held
  sound := h.sound
  replies numbers hm := by
    rcases List.mem_append.mp hm with hm | hm
    · exact h.replies numbers hm
    · cases List.mem_singleton.mp hm
      exact ⟨i, c, hc, rfl⟩

/-- **The addresses are as expected**, if the master gateway has not given up. -/
theorem Line.expected {x : ToServer} {rest : List ToServer}
    (h : Line cfg g gateways (.receiving i index) m (x :: rest) toMaster) :
    (m = .failed ∧ x = .closed) ∨ x = g.info (numbersAt cfg i) index := by
  have hsent := h.sent (by simp)
  have hwritten := h.written (by simp)
  -- an element behind the first `index + 1` of what has been sent
  have hbehind : ∀ (numbers : Numbers) (n : Nat), numbers = numbersAt cfg i →
      g.infos numbers n = g.infos (numbersAt cfg i) index ++ x :: rest →
        x = g.info (numbersAt cfg i) index := by
    rintro numbers n rfl hinfos
    have hget := congrArg (fun l => l[index + 1]?) hinfos
    simp only [MasterGateway.infos, List.cons_append, List.getElem?_cons_succ] at hget
    rw [List.getElem?_append_right (by simp), List.length_map, List.length_range, Nat.sub_self,
      List.getElem?_cons_zero, List.getElem?_map, Option.map_eq_some_iff] at hget
    obtain ⟨src, hsrc, rfl⟩ := hget
    obtain ⟨_, rfl⟩ := List.getElem?_eq_some_iff.mp hsrc
    simp
  cases m with
  | connecting => simp [Master.sent, Thread.read, MasterGateway.infos] at hsent
  | connected => simp [Master.sent, Thread.read, MasterGateway.infos] at hsent
  | waiting => simp [Master.sent, Thread.read, MasterGateway.infos] at hsent
  | failed =>
      left
      simp only [Master.sent, Thread.read, MasterGateway.infos, List.cons_append,
        List.cons.injEq, true_and] at hsent
      cases index with
      | zero =>
          obtain ⟨hx, _⟩ : ToServer.closed = x ∧ [] = rest := by simpa using hsent
          exact ⟨rfl, hx.symm⟩
      | succ index =>
          have hlength := congrArg List.length hsent
          simp only [List.length_append, List.length_map, List.length_range, List.length_cons,
            List.length_nil] at hlength
          omega
  | sending numbers src =>
      refine Or.inr (hbehind numbers src ?_ hsent)
      have hwritten := hwritten (by simp)
      simp only [Thread.written, Master.received, List.cons_append, List.cons.injEq,
        ToMaster.accepted.injEq] at hwritten
      exact hwritten.1.symm
  | receiving numbers table =>
      refine Or.inr (hbehind numbers _ ?_ hsent)
      have hwritten := hwritten (by simp)
      simp only [Thread.written, Master.received, List.cons_append, List.cons.injEq,
        ToMaster.accepted.injEq] at hwritten
      exact hwritten.1.symm
  | finished numbers table =>
      refine Or.inr (hbehind numbers _ ?_ hsent)
      have hwritten := hwritten (by simp)
      simp only [Thread.written, Master.received, List.cons_append, List.cons.injEq,
        ToMaster.accepted.injEq] at hwritten
      exact hwritten.1.symm

theorem Line.receiveGatewayInfo {rest : List ToServer}
    (h : Line cfg g gateways (.receiving i index) m (g.info (numbersAt cfg i) index :: rest)
      toMaster)
    (hindex : index < cfg.numberOfGatewaysPerCluster) :
    Line cfg g gateways
      (if index + 1 < cfg.numberOfGatewaysPerCluster then .receiving i (index + 1)
        else .sending i 0) m rest toMaster := by
  have hsent : m.sent g = g.infos (numbersAt cfg i) (index + 1) ++ rest := by
    rw [h.sent (by simp), Thread.read, infos_succ, List.append_assoc]
    rfl
  split
  · exact { h with
      idle := iff_of_false (by simp) fun hm => by simpa using h.idle.mpr hm
      sent := fun _ => hsent
      written := fun _ => h.written (by simp) }
  · rename_i hlast
    have hall : cfg.numberOfGatewaysPerCluster = index + 1 := by omega
    exact { h with
      idle := iff_of_false (by simp) fun hm => by simpa using h.idle.mpr hm
      sent := fun _ => by
        rw [Thread.read, hall]
        exact hsent
      written := fun _ hm => by
        rw [← h.written (by simp) hm]
        rfl }

theorem Line.sendGatewayInfo {p : Nat × Nat} {held : HeldInfo}
    (h : Line cfg g gateways (.sending i number) m toServer toMaster)
    (hp : (allGateways cfg)[number]? = some p) (hheld : gateways p.1 p.2 = some held) :
    Line cfg g gateways (.sending i (number + 1)) m toServer (toMaster ++ [.gateway held]) where
  idle := iff_of_false (by simp) fun hm => by simpa using h.idle.mpr hm
  sent _ := h.sent (by simp)
  written _ hm := by
    rw [← List.append_assoc, ← h.written (by simp) hm, Thread.written, Thread.written, tell,
      List.take_add_one, hp, List.filterMap_append, tell]
    simp [hheld]
  told := (List.getElem?_eq_some_iff.mp hp).1
  held q hq := by
    rw [Thread.told, List.take_add_one, hp, List.mem_append] at hq
    rcases hq with hq | hq
    · exact h.held q hq
    · obtain rfl : q = p := by simpa using hq
      rw [hheld]
      rfl
  sound := h.sound
  replies numbers hm := h.replies numbers (by simpa using hm)

theorem Line.setReady (h : Line cfg g gateways (.sending i number) m toServer toMaster)
    (hnumber : ¬ number < (allGateways cfg).length) :
    Line cfg g gateways (.finished i) m toServer toMaster := by
  obtain rfl : number = (allGateways cfg).length := Nat.le_antisymm h.told (by omega)
  exact { h with
    idle := iff_of_false (by simp) fun hm => by simpa using h.idle.mpr hm
    sent := fun _ => h.sent (by simp)
    written := fun _ => h.written (by simp) }

end SignUp

end EsalsaMpi
