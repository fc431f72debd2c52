import Quorum.Order.Follows
import Quorum.Relay
import Quorum.Request

/-!
# The relay serializes commits

Whatever the clients of a group do, and in whatever order, the relay accepts one commit for each
epoch and every client merges them in that order (`commits_serialized`).

The log decides (`Follows`): the commits in it are numbered by the epochs they were made in, and a
client has merged the first of them, as many as its epoch says.  A client whose commit is accepted
is at the head of the log at that moment, so nothing is between what it has merged and its own
commit; that stays so until it acts on the answer.
-/

namespace Quorum

namespace Relay

/-! ### The store -/

section

variable {π α δ : Type} {store store' : MemoryStore π} {group : String} {data : GroupData π}

@[simp] theorem MemoryStore.groups_insert_self (store : MemoryStore π) (group : String)
    (data : GroupData π) : (store.insert group data).groups group = some data :=
  Function.update_self ..

@[simp] theorem MemoryStore.insert_insert (store : MemoryStore π) (group : String)
    (data data' : GroupData π) :
    (store.insert group data).insert group data' = store.insert group data' :=
  congrArg MemoryStore.mk (Function.update_idem ..)

/-- The entry that a message would be. -/
def GroupData.entry (data : GroupData π) (group : String) (epoch : ℕ) (sender : String)
    (payload : π) : StoredMessage π where
  group
  seq := data.log.length + 1
  epoch
  sender
  payload

theorem findGroup_of_some (h : store.groups group = some data) :
    findGroup group store = .ok data store := by
  unfold findGroup
  rw [bind_of_ok (x := get) rfl, h]
  rfl

theorem findGroup_of_none (h : store.groups group = none) :
    findGroup group store = .error .noSuchGroup store := by
  unfold findGroup
  rw [bind_of_ok (x := get) rfl, h]
  rfl

theorem swapEpoch_conflict (h : store.groups group = some data) {epoch : ℕ}
    (he : epoch ≠ data.epoch + 1) :
    swapEpoch group epoch store = .error .epochConflict store := by
  unfold swapEpoch
  rw [bind_of_ok (findGroup_of_some h), if_pos he]
  rfl

theorem swapEpoch_ok (h : store.groups group = some data) :
    swapEpoch group (data.epoch + 1) store =
      .ok () (store.insert group { data with epoch := data.epoch + 1 }) := by
  unfold swapEpoch
  rw [bind_of_ok (findGroup_of_some h), if_neg (not_not.mpr rfl)]
  rfl

theorem pushMessage_ok (h : store.groups group = some data) (epoch : ℕ) (sender : String)
    (payload : π) :
    pushMessage group epoch sender payload store =
      .ok (data.log.length + 1) (store.insert group
        { data with log := data.log ++ [data.entry group epoch sender payload] }) := by
  unfold pushMessage
  rw [bind_of_ok (findGroup_of_some h)]
  rfl

/-- A commit for any epoch but the next is refused, and nothing changes. -/
theorem appendMessage_conflict (h : store.groups group = some data) {epoch : ℕ}
    (he : epoch ≠ data.epoch + 1) (sender : String) (payload : π) :
    appendMessage group epoch sender payload true store = .error .epochConflict store :=
  (bind_of_ok (findGroup_of_some h)).trans (bind_of_error (swapEpoch_conflict h he))

/-- A commit for the next epoch is accepted: it moves the group on and goes to the end of the
log. -/
theorem appendMessage_commit (h : store.groups group = some data) (sender : String) (payload : π) :
    appendMessage group (data.epoch + 1) sender payload true store =
      .ok (data.log.length + 1) (store.insert group
        { epoch := data.epoch + 1
          log := data.log ++ [data.entry group (data.epoch + 1) sender payload] }) := by
  have hpush := pushMessage_ok (MemoryStore.groups_insert_self store group
    { data with epoch := data.epoch + 1 }) (data.epoch + 1) sender payload
  rw [MemoryStore.insert_insert] at hpush
  exact (bind_of_ok (findGroup_of_some h)).trans ((bind_of_ok (swapEpoch_ok h)).trans hpush)

/-- Any other message goes to the end of the log. -/
theorem appendMessage_app (h : store.groups group = some data) (epoch : ℕ) (sender : String)
    (payload : π) :
    appendMessage group epoch sender payload false store =
      .ok (data.log.length + 1) (store.insert group
        { data with log := data.log ++ [data.entry group epoch sender payload] }) :=
  (bind_of_ok (findGroup_of_some h)).trans (pushMessage_ok h epoch sender payload)

/-- What `appendMessage` does: it refuses and leaves the store as it was, or the message is at the
end of the log of a group that is there. -/
theorem appendMessage_cases (group : String) (epoch : ℕ) (sender : String) (payload : π)
    (commit : Bool) (store : MemoryStore π) :
    (∃ e, appendMessage group epoch sender payload commit store = .error e store) ∨
      ∃ data epoch', store.groups group = some data ∧
        appendMessage group epoch sender payload commit store =
          .ok (data.log.length + 1) (store.insert group
            { epoch := epoch', log := data.log ++ [data.entry group epoch sender payload] }) := by
  cases hg : store.groups group with
  | none => exact .inl ⟨_, bind_of_error (findGroup_of_none hg)⟩
  | some data =>
    cases commit with
    | false => exact .inr ⟨data, data.epoch, rfl, appendMessage_app hg ..⟩
    | true =>
      by_cases he : epoch = data.epoch + 1
      · subst he
        exact .inr ⟨data, data.epoch + 1, rfl, appendMessage_commit hg ..⟩
      · exact .inl ⟨_, appendMessage_conflict hg he ..⟩

/-- **A refused message leaves the store as it was.** -/
theorem appendMessage_error {epoch : ℕ} {sender : String} {payload : π} {commit : Bool}
    {e : StoreError} (h : appendMessage group epoch sender payload commit store = .error e store') :
    store' = store := by
  rcases appendMessage_cases group epoch sender payload commit store with
    ⟨_, heq⟩ | ⟨_, _, -, heq⟩ <;> cases heq.symm.trans h
  rfl

/-- A message that is accepted is at the end of the log of a group that is there. -/
theorem appendMessage_ok {epoch seq : ℕ} {sender : String} {payload : π} {commit : Bool}
    (h : appendMessage group epoch sender payload commit store = .ok seq store') :
    ∃ data epoch', store.groups group = some data ∧ seq = data.log.length + 1 ∧
      store' = store.insert group
        { epoch := epoch', log := data.log ++ [data.entry group epoch sender payload] } := by
  rcases appendMessage_cases group epoch sender payload commit store with
    ⟨_, heq⟩ | ⟨data, epoch', hg, heq⟩ <;> cases heq.symm.trans h
  exact ⟨data, epoch', hg, rfl, rfl⟩

theorem createGroup_ok (h : createGroup group store = .ok () store') :
    store'.groups group = some { epoch := 0, log := [] } := by
  unfold createGroup at h
  rw [bind_of_ok (x := get) rfl] at h
  cases hg : store.groups group with
  | some data =>
    rw [hg] at h
    cases h
  | none =>
    rw [hg] at h
    cases h
    exact MemoryStore.groups_insert_self ..

end

/-! ### The invariant -/

section

variable {ι β : Type}

/-- The commit in an entry of the log. -/
def StoredMessage.commit? (m : StoredMessage (Payload ι β)) : Option (Commit ι β) :=
  m.payload.commit?

def decided (log : List (StoredMessage (Payload ι β))) : List (Commit ι β) :=
  log.filterMap StoredMessage.commit?

/-- The log of a group is dense, and its commits are numbered by the epochs they were made in. -/
structure GroupOk (data : GroupData (Payload ι β)) : Prop where
  seqs : data.log.map StoredMessage.seq = List.range' 1 data.log.length
  chain : (decided data.log).map Commit.base = List.range data.epoch
  stamped : ∀ m ∈ data.log, ∀ c, m.commit? = some c → m.epoch = c.base + 1

/-- A client follows the log.  It is told that its commit was accepted only while the commit is the
next one for it to merge. -/
structure ClientOk (log : List (StoredMessage (Payload ι β))) (me : ι) (client : Client ι β) :
    Prop where
  follows : Follows StoredMessage.commit? log client.cursor client.applied
  view : client.view = client.applied.length
  staged : ∀ c, client.staged = some c → c.author = me ∧ c.base = client.view
  accepted : ∀ seq, client.answer = some (.ok seq) →
    ∃ c, client.staged = some c ∧ client.applied ++ [c] <+: decided log
  own : ∀ c ∈ decided log, c.author = me → c.base < client.view ∨
    (∃ seq, client.answer = some (.ok seq)) ∧ client.staged = some c

/-- The relay and every client are in order. -/
structure Serial (group : String) (s : Sim ι β) (data : GroupData (Payload ι β)) : Prop where
  found : s.store.groups group = some data
  groupOk : GroupOk data
  clientOk : ∀ i, ClientOk data.log i (s.clients i)

/-! ### The log -/

section

variable {data : GroupData (Payload ι β)}

/-- The numbers of a log that grows stay dense. -/
theorem GroupOk.seqs_append (h : GroupOk data) (group : String) (epoch : ℕ) (sender : String)
    (payload : Payload ι β) :
    (data.log ++ [data.entry group epoch sender payload]).map StoredMessage.seq =
      List.range' 1 (data.log ++ [data.entry group epoch sender payload]).length := by
  rw [List.map_append, h.seqs, List.length_append, List.length_singleton, List.range'_concat]
  simp [GroupData.entry, Nat.add_comm]

/-- As many commits were accepted as there were epochs. -/
theorem GroupOk.length_decided (h : GroupOk data) : (decided data.log).length = data.epoch := by
  have hlen := congrArg List.length h.chain
  rwa [List.length_map, List.length_range] at hlen

/-- A commit comes after as many commits as the epoch it was made in says. -/
theorem GroupOk.base_eq (h : GroupOk data) {l : List (Commit ι β)} {c : Commit ι β}
    (hc : l ++ [c] <+: decided data.log) : c.base = l.length := by
  have hmap := hc.map Commit.base
  rw [h.chain, List.map_append, List.map_singleton, List.prefix_iff_eq_take, List.take_range,
    List.length_append, List.length_map, List.length_singleton] at hmap
  have hmin : min (l.length + 1) data.epoch = l.length + 1 := by
    have hlen := congrArg List.length hmap
    rwa [List.length_append, List.length_map, List.length_singleton, List.length_range,
      eq_comm] at hlen
  rw [hmin, List.range_succ] at hmap
  exact List.singleton_inj.mp (List.append_inj_right hmap (by simp))

/-- The entries are numbered from one on. -/
theorem GroupOk.seq_eq (h : GroupOk data) {i : ℕ} {m : StoredMessage (Payload ι β)}
    (hm : data.log[i]? = some m) : m.seq = i + 1 := by
  have hi : i < data.log.length := (List.getElem?_eq_some_iff.mp hm).1
  have hget : (data.log.map StoredMessage.seq)[i]? = some (1 + 1 * i) := by
    rw [h.seqs, List.getElem?_range' hi]
  rw [List.getElem?_map, hm, Option.map_some, Option.some.injEq] at hget
  omega

def commitEntries (log : List (StoredMessage (Payload ι β))) :
    List (StoredMessage (Payload ι β)) :=
  log.filter (·.commit?.isSome)

theorem map_epoch_commitEntries {log : List (StoredMessage (Payload ι β))}
    (h : ∀ m ∈ log, ∀ c, m.commit? = some c → m.epoch = c.base + 1) :
    (commitEntries log).map StoredMessage.epoch = (decided log).map (·.base + 1) := by
  induction log with
  | nil => rfl
  | cons m log ih =>
    have ih := ih fun m' hm' => h m' (List.mem_cons_of_mem _ hm')
    unfold commitEntries decided at ih ⊢
    cases hc : m.commit? with
    | none => rw [List.filter_cons_of_neg (by simp [hc]), List.filterMap_cons_none hc, ih]
    | some c =>
      rw [List.filter_cons_of_pos (by simp [hc]), List.filterMap_cons_some hc, List.map_cons,
        List.map_cons, ih, h m (List.mem_cons_self ..) c hc]

/-- What is new to a client is the log from its cursor on. -/
theorem GroupOk.messagesAfter_eq (h : GroupOk data) (cursor : ℕ) :
    messagesAfter data.log cursor = data.log.drop cursor := by
  have hold : (data.log.take cursor).filter (fun m => decide (cursor < m.seq)) = [] := by
    rw [List.filter_eq_nil_iff]
    intro m hm
    obtain ⟨i, hi⟩ := List.mem_iff_getElem?.mp hm
    rw [List.getElem?_take] at hi
    split at hi
    · rw [h.seq_eq hi, decide_eq_true_eq]
      omega
    · cases hi
  have hnew : (data.log.drop cursor).filter (fun m => decide (cursor < m.seq)) =
      data.log.drop cursor := by
    rw [List.filter_eq_self]
    intro m hm
    obtain ⟨i, hi⟩ := List.mem_iff_getElem?.mp hm
    rw [List.getElem?_drop] at hi
    rw [h.seq_eq hi, decide_eq_true_eq]
    omega
  unfold messagesAfter
  conv_lhs => rw [← List.take_append_drop cursor data.log]
  rw [List.filter_append, hold, hnew, List.nil_append]

end

/-! ### Reading the log -/

section

variable [DecidableEq ι] {data : GroupData (Payload ι β)} {me : ι} {client : Client ι β}

/-- An entry that is read is merged if it is the next commit, and passed over otherwise. -/
theorem ClientOk.receive (h : ClientOk data.log me client) (hg : GroupOk data)
    (hanswer : client.answer = none) {m : StoredMessage (Payload ι β)}
    (hm : data.log[client.cursor]? = some m) :
    ClientOk data.log me (client.receive me m) ∧ (client.receive me m).answer = none ∧
      (client.receive me m).cursor = client.cursor + 1 := by
  have hcursor : max client.cursor m.seq = client.cursor + 1 := by
    rw [hg.seq_eq hm]
    omega
  have hno : ∀ seq, client.answer ≠ some (.ok seq) := by
    rw [hanswer]
    exact fun _ => nofun
  -- what the client committed itself and is in the log, it has merged
  have hown : ∀ c ∈ decided data.log, c.author = me → c.base < client.view := by
    intro c hc hme
    exact (h.own c hc hme).resolve_right fun ⟨⟨seq, hs⟩, _⟩ => hno seq hs
  unfold Client.receive
  cases hp : m.payload with
  | app text =>
    refine ⟨⟨?_, h.view, h.staged, fun seq hs => absurd hs (hno seq), ?_⟩, hanswer, hcursor⟩
    · rw [hcursor]
      exact h.follows.read_none hm (by rw [StoredMessage.commit?, hp]; rfl)
    · exact fun c hc hme => .inl (hown c hc hme)
  | commit c =>
    have hpick : m.commit? = some c := by rw [StoredMessage.commit?, hp]; rfl
    have hread := Follows.decided_through hm hpick
    have hbase : c.base = ((data.log.take client.cursor).filterMap StoredMessage.commit?).length :=
      hg.base_eq hread
    dsimp only
    split
    · rename_i hnext
      refine ⟨⟨?_, ?_, nofun, fun seq hs => absurd hs (hno seq), ?_⟩, hanswer, hcursor⟩
      · rw [Client.merge, hcursor]
        refine h.follows.read_apply hm hpick ?_
        rw [← hbase, hnext.1, h.view]
      · simp [Client.merge, h.view]
      · exact fun c hc hme => .inl (Nat.lt_succ_of_lt (hown c hc hme))
    · rename_i hskip
      refine ⟨⟨?_, h.view, h.staged, fun seq hs => absurd hs (hno seq), ?_⟩, hanswer, hcursor⟩
      · rw [hcursor]
        refine h.follows.read_skip hm hpick fun hlen => hskip ⟨?_, fun hme => ?_⟩
        · rw [hbase, hlen, h.view]
        · have hlt := hown c (hread.subset (by simp)) hme
          rw [hbase, hlen, h.view] at hlt
          exact lt_irrefl _ hlt
      · exact fun c hc hme => .inl (hown c hc hme)

/-- The first of the entries from a place on. -/
theorem head_of_prefix_drop {α : Type} {l l' : List α} {a : α} {n : ℕ} (h : a :: l <+: l'.drop n) :
    l'[n]? = some a ∧ l <+: l'.drop (n + 1) := by
  obtain ⟨rest, hrest⟩ := h
  have hget := congrArg (·[0]?) hrest
  refine ⟨by simpa [List.getElem?_drop] using hget.symm, rest, ?_⟩
  rw [← List.tail_drop, ← hrest]
  rfl

/-- A client that reads on stays in order, wherever it stops. -/
theorem ClientOk.receiveAll (hg : GroupOk data) {entries : List (StoredMessage (Payload ι β))}
    (h : ClientOk data.log me client) (hanswer : client.answer = none)
    (hentries : entries <+: data.log.drop client.cursor) :
    ClientOk data.log me (entries.foldl (Client.receive me) client) ∧
      (entries.foldl (Client.receive me) client).answer = none ∧
      (entries.foldl (Client.receive me) client).cursor = client.cursor + entries.length := by
  induction entries generalizing client with
  | nil => exact ⟨h, hanswer, rfl⟩
  | cons m entries ih =>
    obtain ⟨hm, htail⟩ := head_of_prefix_drop hentries
    obtain ⟨hok, hno, hcursor⟩ := h.receive hg hanswer hm
    obtain ⟨hok', hno', hcursor'⟩ := ih hok hno (by rwa [hcursor])
    refine ⟨hok', hno', ?_⟩
    rw [List.foldl_cons, hcursor', hcursor, List.length_cons]
    omega

theorem ClientOk.catchUp (h : ClientOk data.log me client) (hg : GroupOk data) (count : ℕ) :
    ClientOk data.log me (client.catchUp me data.log count) := by
  unfold Client.catchUp
  cases hanswer : client.answer with
  | some answer => exact h
  | none =>
    rw [hg.messagesAfter_eq]
    exact (h.receiveAll hg hanswer (List.take_prefix ..)).1

end

/-! ### The other steps of a client -/

section

variable {log : List (StoredMessage (Payload ι β))} {me : ι} {client : Client ι β}

theorem ClientOk.new (me : ι) : ClientOk ([] : List (StoredMessage (Payload ι β))) me .new where
  follows := .start ..
  view := rfl
  staged := nofun
  accepted := nofun
  own := nofun

theorem ClientOk.stage (h : ClientOk log me client) (change : β) :
    ClientOk log me (client.stage me change) := by
  unfold Client.stage
  cases hs : client.staged with
  | some c => exact h
  | none =>
    have hno : ∀ seq, client.answer ≠ some (.ok seq) := by
      intro seq hseq
      obtain ⟨c, hc, -⟩ := h.accepted seq hseq
      exact absurd (hs.symm.trans hc) nofun
    refine ⟨h.follows, h.view, ?_, fun seq hseq => absurd hseq (hno seq), ?_⟩
    · rintro c ⟨⟩
      exact ⟨rfl, rfl⟩
    · intro c hc hme
      exact .inl ((h.own c hc hme).resolve_right fun ⟨⟨seq, hseq⟩, _⟩ => hno seq hseq)

/-- An answer acted on: the commit was accepted and is the next one, or it is dropped. -/
theorem ClientOk.settle (h : ClientOk log me client) : ClientOk log me client.settle := by
  unfold Client.settle
  cases ha : client.answer with
  | none => exact h
  | some answer =>
    cases answer with
    | error e =>
      refine ⟨h.follows, h.view, nofun, nofun, fun c hc hme => .inl ?_⟩
      refine (h.own c hc hme).resolve_right ?_
      rintro ⟨⟨seq, hseq⟩, -⟩
      cases ha.symm.trans hseq
    | ok seq =>
      obtain ⟨c, hc, hnext⟩ := h.accepted seq ha
      have hbase := (h.staged c hc).2
      unfold Client.mergeStagedCommit
      rw [hc]
      refine ⟨h.follows.apply hnext, ?_, nofun, nofun, fun c' hc' hme => .inl ?_⟩
      · simp [Client.merge, h.view]
      · rcases h.own c' hc' hme with hlt | ⟨-, hstaged⟩
        · exact Nat.lt_succ_of_lt hlt
        · cases hc.symm.trans hstaged
          exact hbase ▸ Nat.lt_succ_self _

/-- A client stays in order while the log grows by what is not its own commit. -/
theorem ClientOk.append (h : ClientOk log me client) {m : StoredMessage (Payload ι β)}
    (hm : ∀ c, m.commit? = some c → c.author ≠ me) : ClientOk (log ++ [m]) me client where
  follows := h.follows.append [m]
  view := h.view
  staged := h.staged
  accepted seq hseq := by
    obtain ⟨c, hc, hnext⟩ := h.accepted seq hseq
    refine ⟨c, hc, ?_⟩
    rw [decided, List.filterMap_append]
    exact hnext.trans (List.prefix_append ..)
  own c hc hme := by
    rw [decided, List.filterMap_append, List.mem_append] at hc
    rcases hc with hc | hc
    · exact h.own c hc hme
    · obtain ⟨m', hm', hpick⟩ := List.mem_filterMap.mp hc
      obtain rfl := List.mem_singleton.mp hm'
      exact absurd hme (hm c hpick)

end

/-! ### The relay's decision -/

section

variable {data : GroupData (Payload ι β)} {me : ι} {client : Client ι β} {c : Commit ι β}

/-- A client whose commit is for the next epoch has merged everything. -/
theorem ClientOk.applied_eq (h : ClientOk data.log me client) (hg : GroupOk data)
    (hview : client.view = data.epoch) : client.applied = decided data.log :=
  h.follows.decided.eq_of_length (by rw [← h.view, hview, ← hg.length_decided]; rfl)

theorem ClientOk.view_le (h : ClientOk data.log me client) (hg : GroupOk data) :
    client.view ≤ data.epoch := by
  rw [h.view, ← hg.length_decided]
  exact h.follows.decided.length_le

/-- The author of an accepted commit learns that it is the next one for it to merge. -/
theorem ClientOk.accept (h : ClientOk data.log me client) (hg : GroupOk data)
    (hc : client.staged = some c) (hanswer : client.answer = none) (hbase : c.base = data.epoch)
    {m : StoredMessage (Payload ι β)} (hm : m.commit? = some c) (seq : ℕ) :
    ClientOk (data.log ++ [m]) me { client with answer := some (.ok seq) } := by
  have hdecided : decided (data.log ++ [m]) = decided data.log ++ [c] := by
    rw [decided, List.filterMap_append]
    simp [hm, decided]
  refine ⟨h.follows.append [m], h.view, h.staged, fun _ _ => ⟨c, hc, ?_⟩, fun c' hc' hme => ?_⟩
  · have hview : client.view = data.epoch := (h.staged c hc).2.symm.trans hbase
    rw [hdecided, h.applied_eq hg hview]
  · rw [hdecided, List.mem_append, List.mem_singleton] at hc'
    rcases hc' with hc' | rfl
    · refine .inl ((h.own c' hc' hme).resolve_right ?_)
      rintro ⟨⟨seq', hseq⟩, -⟩
      cases hanswer.symm.trans hseq
    · exact .inr ⟨⟨seq, rfl⟩, hc⟩

/-- An answer that refuses changes nothing a client relies on. -/
theorem ClientOk.refuse (h : ClientOk data.log me client) (hanswer : client.answer = none)
    (e : StoreError) : ClientOk data.log me { client with answer := some (.error e) } where
  follows := h.follows
  view := h.view
  staged := h.staged
  accepted := nofun
  own c hc hme := by
    refine .inl ((h.own c hc hme).resolve_right ?_)
    rintro ⟨⟨seq, hseq⟩, -⟩
    cases hanswer.symm.trans hseq

theorem GroupOk.stamped_append (h : GroupOk data) {e : StoredMessage (Payload ι β)}
    (he : ∀ c, e.commit? = some c → e.epoch = c.base + 1) :
    ∀ m ∈ data.log ++ [e], ∀ c, m.commit? = some c → m.epoch = c.base + 1 := by
  intro m hm
  rcases List.mem_append.mp hm with hm | hm
  · exact h.stamped m hm
  · exact List.mem_singleton.mp hm ▸ he

/-- An accepted commit is the next in the chain. -/
theorem GroupOk.accept (h : GroupOk data) (hbase : c.base = data.epoch) (group sender : String) :
    GroupOk
      { epoch := data.epoch + 1
        log := data.log ++ [data.entry group (data.epoch + 1) sender (.commit c)] } where
  seqs := h.seqs_append ..
  chain := by
    change (decided (data.log ++ [_])).map Commit.base = List.range (data.epoch + 1)
    rw [decided, List.filterMap_append, List.map_append, List.range_succ]
    exact congrArg₂ (· ++ ·) h.chain (congrArg (fun n => [n]) hbase)
  stamped := h.stamped_append fun c' hc' => by
    cases hc'
    exact congrArg (· + 1) hbase.symm

/-- An ordinary message leaves the chain alone. -/
theorem GroupOk.push (h : GroupOk data) (group : String) (epoch : ℕ) (sender : String) (text : β) :
    GroupOk { data with log := data.log ++ [data.entry group epoch sender (.app text)] } where
  seqs := h.seqs_append ..
  chain := by
    change (decided (data.log ++ [_])).map Commit.base = _
    rw [decided, List.filterMap_append, List.map_append]
    exact (List.append_nil _).trans h.chain
  stamped := h.stamped_append fun c' hc' => by cases hc'

end

/-! ### Steps and runs -/

section

variable {group : String} {s : Sim ι β} {data : GroupData (Payload ι β)}

theorem Serial.start {store store' : MemoryStore (Payload ι β)}
    (h : createGroup group store = .ok () store') :
    Serial group (Sim.start store') { epoch := 0, log := [] } where
  found := createGroup_ok h
  groupOk := ⟨rfl, rfl, nofun⟩
  clientOk := .new

variable (user : ι → String)

theorem Serial.sendApp (h : Serial group s data) (i : ι) (text : β) :
    ∃ data', Serial group (s.sendApp group user i text) data' := by
  unfold Sim.sendApp
  rw [appendMessage_app h.found]
  refine ⟨_, MemoryStore.groups_insert_self .., h.groupOk.push .., fun j => ?_⟩
  exact (h.clientOk j).append nofun

variable [DecidableEq ι]

@[simp] theorem Sim.clients_setClient_self (s : Sim ι β) (i : ι) (client : Client ι β) :
    (s.setClient i client).clients i = client :=
  Function.update_self ..

theorem Sim.clients_setClient_of_ne (s : Sim ι β) {i j : ι} (client : Client ι β) (h : j ≠ i) :
    (s.setClient i client).clients j = s.clients j :=
  Function.update_of_ne h ..

/-- Clients are in order if the one that changed is and the others are. -/
theorem clientOk_setClient {log : List (StoredMessage (Payload ι β))} {i : ι} {client : Client ι β}
    (hi : ClientOk log i client) (hj : ∀ j, j ≠ i → ClientOk log j (s.clients j)) (j : ι) :
    ClientOk log j ((s.setClient i client).clients j) := by
  by_cases h : j = i
  · subst h
    rwa [Sim.clients_setClient_self]
  · rw [Sim.clients_setClient_of_ne s client h]
    exact hj j h

/-- A step of one client that leaves the relay alone. -/
theorem Serial.setClient (h : Serial group s data) {i : ι} {client : Client ι β}
    (hc : ClientOk data.log i client) : Serial group (s.setClient i client) data where
  found := h.found
  groupOk := h.groupOk
  clientOk := clientOk_setClient hc fun j _ => h.clientOk j

/-- The relay's decision on a staged commit: accepted for the next epoch, refused for any other. -/
theorem Sim.sendCommit_eq {i : ι} {c : Commit ι β} (hfound : s.store.groups group = some data)
    (hstaged : (s.clients i).staged = some c) (hanswer : (s.clients i).answer = none) :
    s.sendCommit group user i =
      if c.base = data.epoch then
        Sim.setClient
          { s with
            store := s.store.insert group
              { epoch := data.epoch + 1
                log := data.log ++ [data.entry group (data.epoch + 1) (user i) (.commit c)] } }
          i { s.clients i with answer := some (.ok (data.log.length + 1)) }
      else s.setClient i { s.clients i with answer := some (.error .epochConflict) } := by
  unfold Sim.sendCommit
  dsimp only
  rw [hstaged, hanswer]
  dsimp only
  by_cases hbase : c.base = data.epoch
  · rw [if_pos hbase, hbase, appendMessage_commit hfound]
  · rw [if_neg hbase, appendMessage_conflict hfound fun he => hbase (Nat.succ_injective he)]

theorem Serial.sendCommit (h : Serial group s data) (i : ι) :
    ∃ data', Serial group (s.sendCommit group user i) data' := by
  cases hstaged : (s.clients i).staged with
  | none =>
    refine ⟨data, ?_⟩
    unfold Sim.sendCommit
    dsimp only
    rw [hstaged]
    exact h
  | some c =>
    cases hanswer : (s.clients i).answer with
    | some answer =>
      refine ⟨data, ?_⟩
      unfold Sim.sendCommit
      dsimp only
      rw [hstaged, hanswer]
      exact h
    | none =>
      rw [Sim.sendCommit_eq user h.found hstaged hanswer]
      split
      · rename_i hbase
        refine ⟨_, MemoryStore.groups_insert_self .., h.groupOk.accept hbase group (user i), ?_⟩
        refine clientOk_setClient
          ((h.clientOk i).accept h.groupOk hstaged hanswer hbase rfl _) fun j hj => ?_
        refine (h.clientOk j).append ?_
        rintro c' ⟨⟩ hj'
        exact hj (hj'.symm.trans ((h.clientOk i).staged c hstaged).1)
      · exact ⟨data, h.setClient ((h.clientOk i).refuse hanswer _)⟩

/-- **Every step keeps the relay and the clients in order.** -/
theorem Serial.step (h : Serial group s data) (a : Action ι β) :
    ∃ data', Serial group (s.step group user a) data' := by
  cases a with
  | stage i change => exact ⟨data, h.setClient ((h.clientOk i).stage change)⟩
  | sendCommit i => exact h.sendCommit user i
  | settle i => exact ⟨data, h.setClient (h.clientOk i).settle⟩
  | sendApp i text => exact h.sendApp user i text
  | catchUp i count =>
    refine ⟨data, ?_⟩
    change Serial group (s.catchUp group i count) data
    unfold Sim.catchUp
    rw [h.found]
    exact h.setClient ((h.clientOk i).catchUp h.groupOk count)

theorem Serial.run (h : Serial group s data) (actions : List (Action ι β)) :
    ∃ data', Serial group (s.run group user actions) data' := by
  induction actions generalizing s data with
  | nil => exact ⟨data, h⟩
  | cons a actions ih =>
    obtain ⟨data', h'⟩ := h.step user a
    exact ih h'

/-- What the relay's log holds of a group, and what its clients make of it. -/
structure Serialized (group : String) (s : Sim ι β) (data : GroupData (Payload ι β)) : Prop where
  found : s.store.groups group = some data
  /-- No epoch has two commits. -/
  one_per_epoch : ((commitEntries data.log).map StoredMessage.epoch).Nodup
  /-- The commits are for the epochs from one to the stored one, in order. -/
  epochs : (commitEntries data.log).map StoredMessage.epoch = List.range' 1 data.epoch
  seqs : data.log.map StoredMessage.seq = List.range' 1 data.log.length
  /-- A commit that would be refused now would leave no trace. -/
  refused : ∀ epoch sender payload e store',
    appendMessage group epoch sender payload true s.store = .error e store' → store' = s.store
  /-- No client is ahead of the relay. -/
  view_le : ∀ i, (s.clients i).view ≤ data.epoch
  /-- Clients that have read everything have merged the same commits. -/
  agree : ∀ i j, (s.clients i).cursor = data.log.length → (s.clients j).cursor = data.log.length →
    (s.clients i).applied = (s.clients j).applied

/-- **The relay serializes commits**, for any clients and any order of their steps. -/
theorem commits_serialized {store store' : MemoryStore (Payload ι β)}
    (hcreate : createGroup group store = .ok () store') (actions : List (Action ι β)) :
    ∃ data, Serialized group ((Sim.start store').run group user actions) data := by
  obtain ⟨data, h⟩ := (Serial.start hcreate).run user actions
  have hepochs : (commitEntries data.log).map StoredMessage.epoch = List.range' 1 data.epoch := by
    have hmap := congrArg (List.map (· + 1)) h.groupOk.chain
    rw [List.map_map] at hmap
    rw [map_epoch_commitEntries h.groupOk.stamped, List.range'_eq_map_range]
    simpa [Function.comp_def, Nat.add_comm] using hmap
  refine ⟨data, h.found, ?_, hepochs, h.groupOk.seqs, fun _ _ _ _ _ => appendMessage_error,
    fun i => (h.clientOk i).view_le h.groupOk, fun i j hi hj => ?_⟩
  · rw [hepochs]
    exact List.nodup_range'
  · have hfi := (h.clientOk i).follows
    have hfj := (h.clientOk j).follows
    rw [hi] at hfi
    rw [hj] at hfj
    exact hfi.agree hfj

/-- Two admins commit at the same moment, and then read the log. -/
def twoAdmins : Sim Bool ℕ :=
  (Sim.start (MemoryStore.empty.insert "circle" { epoch := 0, log := [] })).run "circle"
    (fun i => if i then "alice" else "bob")
    [.stage true 1, .stage false 2, .sendCommit true, .sendCommit false, .settle false,
      .settle true, .sendApp false 3, .catchUp true 2, .catchUp false 2]

/-- One of them is refused, and both go on with the commit of the other. -/
theorem two_admins_one_commit :
    (∃ data, Serialized "circle" twoAdmins data) ∧
      ∀ i, (twoAdmins.clients i).applied = [{ author := true, base := 0, change := 1 }] :=
  ⟨commits_serialized _ (show createGroup "circle" MemoryStore.empty = _ from rfl) _,
    by decide +kernel⟩

/-! ### Epochs and histories -/

/-- The log of a group only grows. -/
theorem Sim.log_step (hfound : s.store.groups group = some data) (a : Action ι β) :
    ∃ data', (s.step group user a).store.groups group = some data' ∧ data.log <+: data'.log := by
  cases a with
  | stage i change | settle i => exact ⟨data, hfound, List.prefix_rfl⟩
  | sendApp i text =>
    simp only [Sim.step, Sim.sendApp, appendMessage_app hfound]
    exact ⟨_, MemoryStore.groups_insert_self .., List.prefix_append ..⟩
  | catchUp i count =>
    simp only [Sim.step, Sim.catchUp, hfound]
    exact ⟨data, hfound, List.prefix_rfl⟩
  | sendCommit i =>
    change ∃ data', (s.sendCommit group user i).store.groups group = some data' ∧ _
    by_cases hsend : ∃ c, (s.clients i).staged = some c ∧ (s.clients i).answer = none
    · obtain ⟨c, hstaged, hanswer⟩ := hsend
      rw [Sim.sendCommit_eq user hfound hstaged hanswer]
      split
      · exact ⟨_, MemoryStore.groups_insert_self .., List.prefix_append ..⟩
      · exact ⟨data, hfound, List.prefix_rfl⟩
    · have hsame : s.sendCommit group user i = s := by
        unfold Sim.sendCommit
        dsimp only
        split
        · rename_i c hstaged hanswer
          exact absurd ⟨c, hstaged, hanswer⟩ hsend
        · rfl
      exact ⟨data, by rw [hsame]; exact hfound, List.prefix_rfl⟩

theorem Sim.log_run (hfound : s.store.groups group = some data) (actions : List (Action ι β)) :
    ∃ data', (s.run group user actions).store.groups group = some data' ∧
      data.log <+: data'.log := by
  induction actions generalizing s data with
  | nil => exact ⟨data, hfound, List.prefix_rfl⟩
  | cons a actions ih =>
    obtain ⟨mid, hmid, hle⟩ := Sim.log_step user hfound a
    obtain ⟨data', hdata', hle'⟩ := ih hmid
    exact ⟨data', hdata', hle.trans hle'⟩

/-- **An epoch stands for one history.**  Whatever the clients do, two of them that are in the same
epoch, be it at different times, have merged the same commits. -/
theorem same_epoch_same_history {store store' : MemoryStore (Payload ι β)}
    (hcreate : createGroup group store = .ok () store') (actions more : List (Action ι β))
    (i j : ι)
    (hview : (((Sim.start store').run group user actions).clients i).view =
      (((Sim.start store').run group user (actions ++ more)).clients j).view) :
    (((Sim.start store').run group user actions).clients i).applied =
      (((Sim.start store').run group user (actions ++ more)).clients j).applied := by
  obtain ⟨data, h⟩ := (Serial.start hcreate).run user actions
  obtain ⟨data', h'⟩ := (Serial.start hcreate).run user (actions ++ more)
  obtain ⟨later, hlater, hle⟩ := Sim.log_run user h.found more
  have hrun : (Sim.start store').run group user (actions ++ more) =
      ((Sim.start store').run group user actions).run group user more := List.foldl_append
  rw [← hrun, h'.found] at hlater
  obtain rfl : data' = later := Option.some.inj hlater
  have hi := (h.clientOk i).follows.decided.trans (hle.filterMap _)
  have hj := (h'.clientOk j).follows.decided
  have hlength : (((Sim.start store').run group user actions).clients i).applied.length =
      (((Sim.start store').run group user (actions ++ more)).clients j).applied.length := by
    rw [← (h.clientOk i).view, hview, (h'.clientOk j).view]
  exact (List.prefix_of_prefix_length_le hi hj hlength.le).eq_of_length hlength

/-- Bob reads alice's commit after she has merged it. -/
theorem same_epoch_after_reading :
    (((Sim.start (MemoryStore.empty.insert "circle" { epoch := 0, log := [] })).run "circle"
      (fun i => if i then "alice" else "bob")
      [.stage true 1, .sendCommit true, .settle true]).clients true).applied =
    (((Sim.start (MemoryStore.empty.insert "circle" { epoch := 0, log := [] })).run "circle"
      (fun i => if i then "alice" else "bob")
      ([.stage true 1, .sendCommit true, .settle true] ++ [.stage false 2, .sendCommit false,
        .settle false, .catchUp false 1])).clients false).applied :=
  same_epoch_same_history (β := ℕ) _ (show createGroup "circle" MemoryStore.empty = _ from rfl) _ _
    true false (by decide +kernel)

end

end

end Relay

end Quorum
