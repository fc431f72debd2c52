import Quorum.Connection

/-!
# One socket at a time, and the requests over it

Whatever calls the client, it has at most one socket, and unless it has been closed it has a socket
or a timer that will open one (`Wired`).  A request is settled once, and an answer settles it only
if it came over the socket that the request went out on; a signature goes to the socket whose nonce
it signs (`Tracked`).
-/

namespace Quorum.Connection

open Handshake (answered)

namespace Relay

variable {β : Type} {name : String} {s s' : Relay β} {k : ℕ}

/-! ### Sockets and timers -/

/-- `k` is the last socket, and the only one that may not be closed. -/
structure Wired (s : Relay β) (k : ℕ) : Prop where
  ws : s.ws = some k
  fresh : k < s.sockets
  only : ∀ j, s.phase j ≠ .closed → j = k
  /-- No timer is set while there is a socket, and never two. -/
  idle : s.phase k ≠ .closed → s.reconnects = []
  single : s.reconnects.length ≤ 1
  /-- A client that has not been closed will try again. -/
  retry : s.closed = false → s.phase k = .closed → s.reconnects ≠ []
  ready : s.ready = true → s.phase k = .opened ∨ s.phase k = .closing
  status : s.status = some (if s.ready then .online
    else if s.phase k = .closed then .offline else .connecting)
  backoff : 500 ≤ s.backoff ∧ s.backoff ≤ 15000
  delays : ∀ d ∈ s.reconnects, 500 ≤ d ∧ d ≤ 15000

namespace Wired

/-- What the sockets and the timers are like does not depend on the requests. -/
theorem of_eq (h : Wired s k)
    (heq : (s'.ws, s'.sockets, s'.phase, s'.reconnects, s'.closed, s'.ready, s'.status,
        s'.backoff) =
      (s.ws, s.sockets, s.phase, s.reconnects, s.closed, s.ready, s.status, s.backoff) := by rfl) :
    Wired s' k := by
  simp only [Prod.mk.injEq] at heq
  obtain ⟨h1, h2, h3, h4, h5, h6, h7, h8⟩ := heq
  constructor <;> simp only [h1, h2, h3, h4, h5, h6, h7, h8]
  exacts [h.ws, h.fresh, h.only, h.idle, h.single, h.retry, h.ready, h.status, h.backoff, h.delays]

theorem start : Wired ({} : Relay β).connect 0 := by
  constructor <;> simp +decide [Relay.connect, Function.update_apply]

/-- A socket that is not closed may go on to another phase. -/
theorem update (h : Wired s k) (hlive : s.phase k ≠ .closed) (p : Phase) (hp : p ≠ .closed)
    (hready : s.ready = true → p = .opened ∨ p = .closing) :
    Wired ({ s with phase := Function.update s.phase k p } : Relay β) k :=
  { h with
    only j hj := by
      by_contra hne
      exact hne (h.only j (by simpa [hne] using hj))
    idle _ := h.idle hlive
    retry _ hclosed := absurd (by simpa using hclosed) hp
    ready := by simpa using hready
    status := by simpa [hlive, hp] using h.status }

theorem shut (h : Wired s k) : Wired (s.shut s.ws) k := by
  rw [h.ws, Relay.shut]
  split
  · exact h
  · rename_i hlive
    exact h.update hlive .closing nofun fun _ => .inr rfl

theorem request (h : Wired s k) (t : String) : Wired (s.request t) k := by
  refine h.of_eq ?_
  unfold Relay.request Relay.send
  grind

theorem answer (h : Wired s k) (rid : Option ℕ) (msg : Message β) (outcome : Outcome β) :
    Wired (s.answer rid msg outcome) k := by
  refine h.of_eq ?_
  unfold Relay.answer Relay.settle
  grind

theorem onmessage (h : Wired s k) (hopen : s.phase k = .opened) (msg : Message β) :
    Wired (s.onmessage name k msg) k := by
  cases msg with
  | error rid message =>
    simp only [Relay.onmessage]
    split
    · exact h.answer ..
    · exact { h with retry := nofun }
  | challenge nonce => exact h.of_eq
  | ready body =>
    exact { h with ready _ := .inl hopen, status := rfl, backoff := by simp [Relay.onmessage] }
  | other rid body => exact h.answer ..

theorem onclose (h : Wired s k) (hlive : s.phase k ≠ .closed) :
    Wired ({ s with phase := Function.update s.phase k .closed } : Relay β).onclose k := by
  have hnone := h.idle hlive
  unfold Relay.onclose
  dsimp only
  split <;> constructor <;> grind [Wired, Function.update_apply]

/-- A timer that fires: the last socket is closed, and no other timer is set. -/
theorem connect (h : Wired s k) {i : ℕ} (hi : i < s.reconnects.length) :
    s.phase k = .closed ∧
      ∃ k', Wired ({ s with reconnects := s.reconnects.eraseIdx i } : Relay β).connect k' := by
  have hclosed : s.phase k = .closed := by
    by_contra hlive
    simp [h.idle hlive] at hi
  have hnone : s.reconnects.eraseIdx i = [] := by
    have hlen := h.single
    exact List.eq_nil_of_length_eq_zero (by rw [List.length_eraseIdx_of_lt hi]; omega)
  refine ⟨hclosed, ?_⟩
  simp only [hnone, Relay.connect]
  split
  · exact ⟨k, by constructor <;> grind [Wired]⟩
  · exact ⟨s.sockets, by constructor <;> grind [Wired, Function.update_apply]⟩

theorem close (h : Wired s k) : Wired s.close k := by
  have hwired : Wired ({ s with closed := true, hb := false } : Relay β) k :=
    { h with retry := nofun }
  exact hwired.shut

end Wired

/-! ### Requests -/

/-- A request that waits: it was given to the last socket, and went out if that is open. -/
def Asks (s : Relay β) (k rid : ℕ) (a : Asked) : Prop :=
  s.ready = true ∧ a.ws = some k ∧ (s.phase k = .opened → (k, .request rid a.t) ∈ s.sent)

/-- A message that settled a request came over the socket that the request went out on. -/
def Answers (s : Relay β) (rid : ℕ) (r : Asked × Outcome β) : Prop :=
  match r.2 with
  | .resolve j msg | .reject j msg =>
    r.1.ws = some j ∧ msg.rid = some rid ∧ (j, .request rid r.1.t) ∈ s.sent ∧
      (j, msg) ∈ s.received
  | .fail _ => True

/-- What is signed for a socket, sent or not, was asked for over that socket. -/
def Authentic (name : String) (s : Relay β) : Prop :=
  ∀ j b, (j, Frame.auth b) ∈ s.tasks ++ s.sent →
    ∃ nonce, (j, .challenge nonce) ∈ s.received ∧ b = answered nonce name

/-- What goes over the sockets of a client, with `k` the last. -/
structure Tracked (name : String) (s : Relay β) (k : ℕ) : Prop where
  accounted : s.requests.Accounted
  each : s.requests.Each (Asks s k) (Answers s)
  deadlines : ∀ rid ∈ s.deadlines, (rid, ⟨"ping", some k⟩) ∈ s.requests.waiting
  authentic : Authentic name s

theorem Answers.mono (hsent : s.sent ⊆ s'.sent) (hreceived : s.received ⊆ s'.received) (rid : ℕ)
    (r : Asked × Outcome β) (h : Answers s rid r) : Answers s' rid r := by
  unfold Answers at h ⊢
  grind

namespace Tracked

/-- What leaves the requests alone. -/
theorem of_le (h : Tracked name s k) (hrequests : s'.requests = s.requests := by rfl)
    (hdeadlines : s'.deadlines ⊆ s.deadlines := by simp)
    (hready : s.ready = true → s'.ready = true := by simp)
    (hphase : s.ready = true → s'.phase k = .opened → s.phase k = .opened := by simp)
    (hsent : s.sent ⊆ s'.sent := by simp) (hreceived : s.received ⊆ s'.received := by simp)
    (hauth : ∀ j b, (j, Frame.auth b) ∈ s'.tasks ++ s'.sent → (j, .auth b) ∈ s.tasks ++ s.sent := by
      simp) :
    Tracked name s' k where
  accounted := hrequests ▸ h.accounted
  each := hrequests ▸ h.each.mono
    (fun _ _ ha => ⟨hready ha.1, ha.2.1, fun hopen => hsent (ha.2.2 (hphase ha.1 hopen))⟩)
    (Answers.mono hsent hreceived)
  deadlines rid hrid := hrequests ▸ h.deadlines rid (hdeadlines hrid)
  authentic j b hmem := (h.authentic j b (hauth j b hmem)).imp fun _ hn => ⟨hreceived hn.1, hn.2⟩

/-- Nothing waits unless the client is ready. -/
theorem waiting_nil (h : Tracked name s k) (hready : s.ready = false) : s.requests.waiting = [] :=
  List.eq_nil_iff_forall_not_mem.mpr fun w hw => by simpa [hready] using (h.each.waiting w hw).1

theorem settle (h : Tracked name s k) {rid : ℕ} {f : Asked → Outcome β}
    (hf : ∀ a, Asks s k rid a → Answers s rid (a, f a)) : Tracked name (s.settle rid f) k where
  accounted := h.accounted.settle ..
  each := h.each.settle hf
  deadlines id hid := by
    obtain ⟨hmem, hne⟩ := List.mem_filter.mp hid
    exact Pending.mem_settle (h.deadlines id hmem) (of_decide_eq_true hne)
  authentic := h.authentic

theorem issue (h : Tracked name s k) {a : Asked} (ha : Asks s k s.requests.next a) :
    Tracked name ({ s with requests := s.requests.issue a } : Relay β) k where
  accounted := h.accounted.issue a
  each := h.each.issue ha
  deadlines rid hrid := List.mem_append_left _ (h.deadlines rid hrid)
  authentic := h.authentic

theorem request (h : Tracked name s k) (hws : s.ws = some k) (t : String) :
    Tracked name (s.request t) k ∧ (s.request t).deadlines = s.deadlines ∧
      (s.ready = true → (s.requests.next, ⟨t, some k⟩) ∈ (s.request t).requests.waiting) := by
  unfold Relay.request Relay.send
  split
  · rename_i hready
    split
    · rename_i k' hk
      obtain rfl : k = k' := Option.some.inj (hws.symm.trans hk)
      dsimp only
      split
      · have hsent : Tracked name
            ({ s with sent := s.sent ++ [(k, .request s.requests.next t)] } : Relay β) k := h.of_le
        exact ⟨hsent.issue ⟨hready, hws, by simp⟩, rfl, by simp [Pending.issue, hws]⟩
      · rename_i hopen
        exact ⟨h.issue ⟨hready, hws, fun hp => absurd hp hopen⟩, rfl, by simp [Pending.issue, hws]⟩
    · simp_all
  · rename_i hready
    exact ⟨h, rfl, fun hr => absurd hr hready⟩

theorem answer (h : Tracked name s k) (hopen : s.phase k = .opened) {msg : Message β}
    (hreceived : (k, msg) ∈ s.received) {outcome : Outcome β}
    (houtcome : outcome = .resolve k msg ∨ outcome = .reject k msg) :
    Tracked name (s.answer msg.rid msg outcome) k := by
  unfold Relay.answer
  split
  · rename_i rid hrid
    split
    · refine h.settle fun a ha => ?_
      rcases houtcome with rfl | rfl <;> exact ⟨ha.2.1, hrid, ha.2.2 hopen, hreceived⟩
    · exact h.of_le
  · exact h.of_le

theorem onmessage (h : Tracked name s k) (hopen : s.phase k = .opened) {msg : Message β}
    (hreceived : (k, msg) ∈ s.received) : Tracked name (s.onmessage name k msg) k := by
  cases msg with
  | error rid message =>
    simp only [Relay.onmessage]
    split
    · exact h.answer hopen hreceived (.inr rfl)
    · exact h.of_le
  | challenge nonce =>
    refine ⟨h.accounted, h.each, h.deadlines, fun j b hmem => ?_⟩
    have hcases : (j, Frame.auth b) ∈ s.tasks ++ s.sent ∨ j = k ∧ b = answered nonce name := by
      simp only [Relay.onmessage] at hmem
      grind
    rcases hcases with hmem | ⟨rfl, rfl⟩
    · exact h.authentic j b hmem
    · exact ⟨nonce, hreceived, rfl⟩
  | ready body =>
    simp only [Relay.onmessage]
    exact h.of_le
  | other rid body => exact h.answer hopen hreceived (.inl rfl)

/-- All that wait are settled, so no deadline is left. -/
theorem onclose (h : Tracked name s k) (phase : ℕ → Phase) :
    Tracked name ({ s with phase } : Relay β).onclose k := by
  have hnone : ∀ rid ∈ s.deadlines.filter fun rid => ¬ s.requests.waits rid, False := by
    intro rid hrid
    obtain ⟨hmem, hnot⟩ := List.mem_filter.mp hrid
    exact of_decide_eq_true hnot (Pending.waits_of_mem (h.deadlines rid hmem))
  have hall (text : String) : (s.requests.settleAll fun a => (a, .fail text)).Accounted ∧
      (s.requests.settleAll fun a => (a, .fail text)).Each (fun _ _ => False) (Answers s) :=
    ⟨h.accounted.settleAll _, h.each.settleAll fun _ _ _ => trivial⟩
  unfold Relay.onclose
  dsimp only
  split
  all_goals
    exact ⟨(hall _).1, (hall _).2.mono (fun _ _ => False.elim) fun _ _ => id,
      fun rid hrid => (hnone rid hrid).elim, h.authentic⟩

/-- If nothing waits, any socket may be the next. -/
theorem connect (h : Tracked name s k) (hready : s.ready = false) (reconnects : List ℕ) (k' : ℕ) :
    Tracked name ({ s with reconnects } : Relay β).connect k' := by
  have hnone := h.waiting_nil hready
  unfold Relay.connect
  split
  all_goals
    refine ⟨h.accounted, ⟨fun w hw => ?_, h.each.settled⟩, fun rid hrid => ?_, h.authentic⟩
    · simp [hnone] at hw
    · simpa [hnone] using h.deadlines rid hrid

theorem shut (h : Tracked name s k) (ws : Option ℕ) : Tracked name (s.shut ws) k := by
  unfold Relay.shut
  split
  · split
    · exact h
    · exact h.of_le rfl (by simp) id (by grind [Function.update_apply])
  · exact h

end Tracked

/-! ### Every call -/

/-- **Step.**  There is one socket that counts, perhaps a new one, and requests are kept track of
by its state. -/
theorem sound_step (hw : Wired s k) (h : Tracked name s k) (e : Event β) :
    ∃ k', Wired (s.step name e) k' ∧ Tracked name (s.step name e) k' := by
  cases e with
  | opened j =>
    simp only [step]
    split
    · rename_i hconnecting
      obtain rfl := hw.only j (by simp [hconnecting])
      have hwired := hw.update (by simp [hconnecting]) .opened nofun fun _ => .inl rfl
      refine ⟨j, hwired.of_eq, h.of_le rfl (by simp) id ?_⟩
      intro hready
      simpa [hconnecting] using hw.ready hready
    · exact ⟨k, hw, h⟩
  | message j msg =>
    simp only [step]
    split
    · rename_i hopen
      obtain rfl := hw.only j (by simp [hopen])
      have hwired : Wired ({ s with received := s.received ++ [(j, msg)] } : Relay β) j := hw.of_eq
      have htracked : Tracked name ({ s with received := s.received ++ [(j, msg)] } : Relay β) j :=
        h.of_le
      exact ⟨j, hwired.onmessage hopen msg, htracked.onmessage hopen (by simp)⟩
    · exact ⟨k, hw, h⟩
  | closed j =>
    simp only [step]
    split
    · exact ⟨k, hw, h⟩
    · rename_i hlive
      obtain rfl := hw.only j hlive
      exact ⟨j, hw.onclose hlive, h.onclose _⟩
  | resume i =>
    simp only [step, send]
    split
    · -- The frame moves from the tasks to the frames sent, or is dropped.
      split <;> exact ⟨k, hw.of_eq, h.of_le rfl (by simp) id (fun _ => id) (by simp) (by simp)
        (by grind [List.mem_of_mem_eraseIdx, List.mem_of_getElem?])⟩
    · exact ⟨k, hw, h⟩
  | reconnect i =>
    simp only [step]
    split
    · rename_i hi
      obtain ⟨hclosed, k', hwired⟩ := hw.connect hi
      have hready := hw.ready
      exact ⟨k', hwired, h.connect (by simpa [hclosed] using hready) _ k'⟩
    · exact ⟨k, hw, h⟩
  | request t => exact ⟨k, hw.request t, (h.request hw.ws t).1⟩
  | timeout rid => exact ⟨k, hw.of_eq, h.settle fun _ _ => trivial⟩
  | beat =>
    simp only [step, beat]
    split
    · rename_i hbeat
      obtain ⟨hping, hsame, hmem⟩ := h.request hw.ws "ping"
      refine ⟨k, (hw.request "ping").of_eq, hping.accounted, hping.each, fun rid hrid => ?_,
        hping.authentic⟩
      -- the ping that the heartbeat sends has the new deadline
      rcases List.mem_append.mp hrid with hrid | hrid
      · exact hping.deadlines rid (hsame ▸ hrid)
      · rw [List.mem_singleton.mp hrid]
        exact hmem hbeat.2
    · exact ⟨k, hw, h⟩
  | deadline rid =>
    simp only [step]
    split
    · have hwired : Wired ({ s with deadlines := s.deadlines.filter (· ≠ rid) } : Relay β) k :=
        hw.of_eq
      have htracked :
          Tracked name ({ s with deadlines := s.deadlines.filter (· ≠ rid) } : Relay β) k := h.of_le
      exact ⟨k, hwired.shut, htracked.shut _⟩
    · exact ⟨k, hw, h⟩
  | close =>
    have htracked : Tracked name ({ s with closed := true, hb := false } : Relay β) k := h.of_le
    exact ⟨k, hw.close, htracked.shut _⟩

/-- What holds of the client after any calls. -/
theorem sound_run (name : String) (events : List (Event β)) :
    ∃ k, Wired (run name events) k ∧ Tracked name (run name events) k := by
  refine foldl_preserves (P := fun s => ∃ k, Wired s k ∧ Tracked name s k) ?_ events ?_
  · rintro s e ⟨k, hw, h⟩
    exact sound_step hw h e
  · refine ⟨0, .start, ⟨Nat.one_pos, .refl _⟩, ⟨?_, ?_⟩, ?_, ?_⟩ <;> simp [connect, Authentic]

/-- **One socket or one timer**, after any calls, and the status shown is that of the socket. -/
theorem one_socket_or_timer (name : String) (events : List (Event β)) :
    ∃ k, Wired (run name events) k :=
  (sound_run name events).imp fun _ h => h.1

/-- **Requests are settled once, and only by their own answers**, over the socket they went out on.
While the client is not ready, none waits. -/
theorem requests_settled_by_answers (name : String) (events : List (Event β)) :
    (run name events).requests.Accounted ∧
      (∃ k, (run name events).ws = some k ∧
        (run name events).requests.Each (Asks (run name events) k) (Answers (run name events))) ∧
      ((run name events).ready = false → (run name events).requests.waiting = []) := by
  obtain ⟨k, hw, h⟩ := sound_run name events
  exact ⟨h.accounted, ⟨k, hw.ws, h.each⟩, h.waiting_nil⟩

/-- **A deadline closes the socket of its ping**, and only while the ping has no answer. -/
theorem deadline_closes_unanswered (name : String) (events : List (Event β)) (rid j : ℕ)
    (h : ((run name events).step name (.deadline rid)).phase j ≠ (run name events).phase j) :
    (rid, ⟨"ping", some j⟩) ∈ (run name events).requests.waiting ∧
      Asks (run name events) j rid ⟨"ping", some j⟩ := by
  obtain ⟨k, hw, ht⟩ := sound_run name events
  simp only [step] at h
  split at h
  · rename_i hrid
    have hmem := ht.deadlines rid hrid
    have hjk : j = k := by
      by_contra hne
      simp only [shut, hw.ws] at h
      split at h
      · exact h rfl
      · exact h (Function.update_of_ne hne ..)
    subst hjk
    exact ⟨hmem, ht.each.waiting _ hmem⟩
  · exact absurd rfl h

/-- A socket opens, is challenged and accepted, and a ping goes out. -/
def pinging : List (Event ℕ) :=
  [.opened 0, .message 0 (.challenge [7]), .resume 0, .resume 0, .message 0 (.ready 0), .beat]

theorem deadline_closes_pinging :
    (1, ⟨"ping", some 0⟩) ∈ (run "alice" pinging).requests.waiting ∧
      Asks (run "alice" pinging) 0 1 ⟨"ping", some 0⟩ :=
  deadline_closes_unanswered "alice" pinging 1 0 (by decide)

/-- **A signature goes over the socket that its nonce came over.** -/
theorem signs_nonce_of_socket (name : String) (events : List (Event β)) :
    Authentic name (run name events) := by
  obtain ⟨k, -, h⟩ := sound_run name events
  exact h.authentic

end Relay

end Quorum.Connection
