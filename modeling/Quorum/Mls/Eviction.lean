import Quorum.Mls.Removal
import Quorum.Store.Memory

/-!
# Deleting a circle

`deleteServer` removes every other member, one after the other, then deletes the group at the relay
and forgets it.  A device learns from the commit that removes it that it has to forget the circle.

The loop is older than `publishCommit`.  It sends its commits without saying that they are commits,
so the relay does not move the group to their epochs, and it does not merge them, so after the first
one nothing can be staged any more.  Nobody but the first member is removed (`deletion_evicts`).
-/

namespace Quorum.Mls

open Js (Dict)
open Store (Bytes MemoryInner GroupData StoredMessage)

variable {mls : OpenMls} {pending : mls.Group → Option (List Member)}

/-! ### The loop -/

/-- The client core, the relay, and what the record of a circle says of members and log. -/
structure World (mls : OpenMls) where
  client : ChatClient mls
  relay : MemoryInner
  members : Option (List String)
  epoch : ℕ
  lastSeq : ℕ

/-- One round of the loop.  The worker returns the commit and the epoch it leads to, and no members;
what is thrown is caught. -/
def evict (me id : String) (w : World mls) (user : String) : World mls :=
  match removeMember id user w.client with
  | (.error _, client) => { w with client }
  | (.ok commit, client) =>
    let epoch := (Mls.epoch client id).getD 0 + 1
    match Store.MemoryStore.appendMessage id epoch me commit false w.relay with
    | (.error _, relay) => { w with client, relay }
    | (.ok seq, relay) =>
      { client, relay, members := none, epoch, lastSeq := max w.lastSeq seq }

/-- The members of a circle besides this device. -/
def World.others (w : World mls) (me : String) : List String :=
  (w.members.getD []).filter (· ≠ me)

def evictAll (me id : String) (w : World mls) : World mls := (w.others me).foldl (evict me id) w

/-- `deleteServer(serverId)`. -/
def deleteServer (me id : String) (w : World mls) : World mls :=
  let w := evictAll me id w
  { w with
    relay := (Store.MemoryStore.deleteGroup id w.relay).2
    client := (forgetGroup id w.client).2 }

/-! ### What it is for -/

/-- Everybody was removed through the log: the relay has taken one commit per member, each for the
epoch after the one it had reached, and has moved there. -/
def Evicted (others : List String) (data data' : GroupData) : Prop :=
  ∃ commits : List StoredMessage, data'.log = data.log ++ commits ∧
    commits.map (·.epoch) = (List.range others.length).map (data.epoch + 1 + ·) ∧
    data'.epoch = data.epoch + others.length

variable {id : String} {data : GroupData}

/-- A message that is no commit. -/
theorem appendMessage_plain {inner : MemoryInner}
    (hget : inner.groups.get? id = some data) (epoch : ℕ) (sender : String) (payload : Bytes) :
    ∃ m seq inner', Store.MemoryStore.appendMessage id epoch sender payload false inner =
        (.ok seq, inner') ∧
      inner'.groups.get? id = some { data with log := data.log ++ [m] } := by
  let m : StoredMessage := { group := id, seq := data.log.length + 1, epoch, sender, payload }
  refine ⟨m, m.seq, { inner with groups := inner.groups.set id { data with log := data.log ++ [m] } },
    ?_, Dict.get?_set_self _ _ _⟩
  simp only [Store.MemoryStore.appendMessage, hget, Bool.false_and]
  rfl

/-- The group of the client has a commit staged. -/
def Blocked (pending : mls.Group → Option (List Member)) (id : String) (c : ChatClient mls) : Prop :=
  ∃ group, c.groups.get? id = some group ∧ (pending group).isSome = true

/-- While a commit is staged no removal succeeds, and it stays staged. -/
theorem removeMember_blocked (hr : Rosters mls pending) {c : ChatClient mls}
    (h : Blocked pending id c) (user : String) :
    (∃ e, (removeMember id user c).1 = .error e) ∧ Blocked pending id (removeMember id user c).2 := by
  obtain ⟨group, hget, hpending⟩ := h
  unfold removeMember onGroup
  rw [hget]
  unfold removeFirst
  dsimp only
  split
  · exact ⟨⟨_, rfl⟩, group, Dict.get?_set_self _ _ _, hpending⟩
  · rename_i target _
    obtain ⟨⟨e, he⟩, hkept⟩ := hr.refuse target.index group c.values hpending
    refine ⟨⟨.mls e, ?_⟩, _, Dict.get?_set_self _ _ _, ?_⟩
    · change Except.mapError _ (mls.removeMembers target.index group c.values).1 = _
      rw [he]
      rfl
    · change (pending (mls.removeMembers target.index group c.values).2.1).isSome = true
      rw [hkept]
      exact hpending

/-- A removal that succeeds leaves a commit staged. -/
theorem blocked_of_removeMember (hr : Rosters mls pending) {id user : String} {c c' : ChatClient mls}
    {commit : Bytes} (h : removeMember id user c = (.ok commit, c')) : Blocked pending id c' := by
  obtain ⟨_, group', _, -, hget', -, hpending⟩ := removeMember_ok hr h
  exact ⟨group', hget', by rw [hpending]; rfl⟩

/-- **A round of the loop** sends at most a message that is no commit, and none once a commit is
staged. -/
theorem evict_cases (hr : Rosters mls pending) (me : String) {w : World mls}
    (hget : w.relay.groups.get? id = some data) (user : String) :
    ((evict me id w user).relay.groups.get? id = some data ∧
        (Blocked pending id w.client → Blocked pending id (evict me id w user).client)) ∨
      ¬Blocked pending id w.client ∧ Blocked pending id (evict me id w user).client ∧
        ∃ m, (evict me id w user).relay.groups.get? id = some { data with log := data.log ++ [m] } := by
  unfold evict
  split
  · rename_i e client hstage
    refine .inl ⟨hget, fun hblocked => ?_⟩
    have h := (removeMember_blocked hr hblocked user).2
    rwa [hstage] at h
  · rename_i commit client hstage
    obtain ⟨m, seq, relay, hsend, hget'⟩ :=
      appendMessage_plain hget ((Mls.epoch client id).getD 0 + 1) me commit
    dsimp only
    rw [hsend]
    refine .inr ⟨fun hblocked => ?_, blocked_of_removeMember hr hstage, m, hget'⟩
    obtain ⟨⟨e, he⟩, -⟩ := removeMember_blocked hr hblocked user
    rw [hstage] at he
    cases he

/-- The loop leaves the epoch of the group alone, and sends at most one message, none once a commit
is staged. -/
theorem evictAll_log (hr : Rosters mls pending) (me : String) (users : List String)
    {w : World mls} (hget : w.relay.groups.get? id = some data) :
    ∃ sent : List StoredMessage, sent.length ≤ 1 ∧ (Blocked pending id w.client → sent = []) ∧
      (users.foldl (evict me id) w).relay.groups.get? id = some { data with log := data.log ++ sent } := by
  induction users generalizing w data with
  | nil => exact ⟨[], Nat.zero_le 1, fun _ => rfl, by simpa using hget⟩
  | cons user users ih =>
    rw [List.foldl_cons]
    rcases evict_cases hr me hget user with ⟨hsame, hkeep⟩ | ⟨hnot, hblocked, m, hget'⟩
    · obtain ⟨sent, hlen, hnone, hlog⟩ := ih hsame
      exact ⟨sent, hlen, fun h => hnone (hkeep h), hlog⟩
    · obtain ⟨sent, -, hnone, hlog⟩ := ih hget'
      obtain rfl := hnone hblocked
      exact ⟨[m], Nat.le_refl 1, fun h => absurd h hnot, by simpa using hlog⟩

/-- **Deleting a circle evicts nobody through the log.**  The loop of `deleteServer` does what it is
for exactly if there is nobody to remove: the relay stays at its epoch, and it gets one message at
most however many members there are.  After the loop the group is gone, at the relay and here. -/
theorem deletion_evicts (hr : Rosters mls pending) (me id : String) (w : World mls)
    {data : GroupData} (hget : w.relay.groups.get? id = some data) :
    ∃ data', (evictAll me id w).relay.groups.get? id = some data' ∧
      data'.log.length ≤ data.log.length + 1 ∧
      (Evicted (w.others me) data data' ↔ w.others me = []) ∧
      (deleteServer me id w).relay.groups.get? id = none ∧
      epoch (deleteServer me id w).client id = none := by
  obtain ⟨sent, hlen, -, hlog⟩ := evictAll_log hr me (w.others me) hget
  refine ⟨_, hlog, by simpa using hlen, ⟨fun h => ?_, fun h => ?_⟩, ?_, ?_⟩
  · obtain ⟨-, -, -, hepoch⟩ := h
    dsimp only at hepoch
    exact List.length_eq_zero_iff.mp (by omega)
  · -- There are no rounds, so nothing is sent.
    rw [h, List.foldl_nil, hget] at hlog
    have hnone : data = { data with log := data.log ++ sent } := Option.some.inj hlog
    rw [← hnone, h]
    exact ⟨[], by simp, rfl, rfl⟩
  · exact (Dict.get?_delete ..).trans (if_pos (beq_self_eq_true id))
  · exact congrArg (Option.map _) ((Dict.get?_delete ..).trans (if_pos (beq_self_eq_true id)))

/-- The group at the relay, with the commits that made it a group of three. -/
def teamAtRelay : GroupData where
  createdBy := "alice"
  members := [("alice", "admin")]
  epoch := 2
  log := [⟨"team", 1, 1, "alice", []⟩, ⟨"team", 2, 2, "carol", []⟩]
  history := .empty

/-- A circle of three, with this device in it. -/
def circleOfThree (members : List String) : World clear where
  client := after do
    teamOfTwo
    let _ ← processIncoming (2 :: asBytes "carol")
  relay := { MemoryInner.empty with groups := Dict.empty.set "team" teamAtRelay }
  members := some members
  epoch := 0
  lastSeq := 0

theorem nobody_to_evict :
    ∃ data data', (circleOfThree ["alice"]).relay.groups.get? "team" = some data ∧
      (evictAll "alice" "team" (circleOfThree ["alice"])).relay.groups.get? "team" = some data' ∧
      Evicted [] data data' := by
  have hget : (circleOfThree ["alice"]).relay.groups.get? "team" = some teamAtRelay := rfl
  obtain ⟨data', hget', -, h, -⟩ := deletion_evicts clear_rosters "alice" "team" _ hget
  exact ⟨_, data', hget, hget', h.mpr rfl⟩

/-- Of two members one is removed, in a message that moves no epoch, and then the circle is gone. -/
theorem second_member_kept :
    let w := evictAll "alice" "team" (circleOfThree ["alice", "bob", "carol"])
    (w.relay.groups.get? "team").map (fun data => (data.epoch, data.log.map (·.epoch))) =
        some (2, [1, 2, 3]) ∧
      epoch w.client "team" = some 2 ∧ w.members = none := by
  decide +kernel

end Quorum.Mls
