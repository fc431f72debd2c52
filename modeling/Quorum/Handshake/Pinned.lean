import Quorum.Handshake
import Quorum.Order.Along

/-!
# A handle is pinned to one key

The key that a signature is checked with is read before the user is registered, and other
connections may register the same user with another key in between.  `register_user` then says
which key was first, and a connection that claimed another is turned away.  So every session was
answered for with the key that is stored for its user (`Sound`), and that key stays (`Pins`).
-/

namespace Quorum.Handshake

open Store (Bytes Call MemoryInner StoreError RegisterOutcome)
open Store.MemoryStore (Op after)

variable {app : App} {inner inner' : MemoryInner} {a : Attempt} {stage : Stage} {e : Event}
  {sig : Bytes}

/-! ### What the store keeps -/

/-- The stored keys are still stored. -/
def Pins (inner inner' : MemoryInner) : Prop :=
  ∀ user key, inner.users.get? user = some key → inner'.users.get? user = some key

theorem Pins.refl (inner : MemoryInner) : Pins inner inner := fun _ _ h => h

theorem Pins.trans {inner'' : MemoryInner} (h : Pins inner inner') (h' : Pins inner' inner'') :
    Pins inner inner'' := fun user key hkey => h' user key (h user key hkey)

/-- **No call changes the key of a user.** -/
theorem pins_after (inner : MemoryInner) (c : Call) :
    Pins inner (after inner c) := by
  intro user key hkey
  rcases Store.MemoryStore.users_after inner c with heq | ⟨user', key', -, hnone, heq⟩
  · rw [heq]
    exact hkey
  · have hne : user' ≠ user := by
      rintro rfl
      rw [hnone] at hkey
      cases hkey
    rw [heq, Js.Dict.get?_set_of_ne _ _ hne]
    exact hkey

theorem called_snd {α : Type} (fault : Option (StoreError × Bool)) (op : Op α)
    (inner : MemoryInner) :
    (called fault op inner).2 = inner ∨ (called fault op inner).2 = (op inner).2 := by
  rcases fault with _ | ⟨e, done⟩
  · exact .inr rfl
  · cases done
    · exact .inl rfl
    · exact .inr rfl

/-- What a handshake does to the store as it goes on: nothing, or it registers its user, or it
claims an invite. -/
theorem inner_advance (app : App) (a : Attempt) (stage : Stage) (e : Event) (inner : MemoryInner) :
    (a.advance app stage e inner).2 = inner ∨
      (∃ sig claim, stage = .register sig claim ∧ (a.advance app stage e inner).2 =
        after inner (.registerUser a.user a.claimedKey)) ∨
      ∃ sig id now, stage = .claim sig id ∧ (a.advance app stage e inner).2 =
        after inner (.claimInviteForRegistration id a.user now) := by
  unfold Attempt.advance
  split
  · exact .inl rfl
  · exact .inl ((called_snd _ _ _).elim id id)
  · exact .inl ((called_snd _ _ _).elim id id)
  · rename_i sig id fault now
    exact (called_snd _ _ _).imp_right fun h => .inr ⟨sig, id, now, rfl, h⟩
  · rename_i sig claim fault now
    exact (called_snd _ _ _).imp_right fun h => .inl ⟨sig, claim, rfl, h⟩
  · exact .inl rfl
  · exact .inl rfl

/-- What a step does to the store: nothing, or a call. -/
theorem inner_step (app : App) (s : Relay) (act : Act) :
    (s.step app act).inner = s.inner ∨
      ∃ c, (s.step app act).inner = after s.inner c := by
  cases act with
  | accept => exact .inl rfl
  | other c h => exact .inr ⟨c, rfl⟩
  | advance i e =>
    cases hi : s.conns[i]? with
    | none => exact .inl (by rw [Relay.step_of_none hi])
    | some conn =>
      rw [Relay.step_of_some hi]
      cases conn with
      | hello => cases e <;> exact .inl rfl
      | refused => exact .inl rfl
      | challenged a stage =>
        rcases inner_advance app a stage e s.inner with h | ⟨_, _, -, h⟩ | ⟨_, _, _, -, h⟩
        · exact .inl h
        · exact .inr ⟨_, h⟩
        · exact .inr ⟨_, h⟩

/-! ### What a handshake has been through -/

/-- The answer of a connection is good under a key. -/
def Attempt.Answered (app : App) (a : Attempt) (key sig : Bytes) : Prop :=
  verifySig app.ed key (signed a.nonce a.user) sig = true

/-- Who is about to register has signed with the key they claim, and who got through has signed with
the key that is stored. -/
def Attempt.Sound (app : App) (inner : MemoryInner) (a : Attempt) : Stage → Prop
  | .count sig => a.Answered app a.claimedKey sig
  | .claim sig _ => a.Answered app a.claimedKey sig
  | .register sig _ => a.Answered app a.claimedKey sig
  | .ready sig => ∃ key, inner.users.get? a.user = some key ∧ a.Answered app key sig
  | .session sig _ => ∃ key, inner.users.get? a.user = some key ∧ a.Answered app key sig
  | _ => True

theorem Attempt.Sound.mono (h : a.Sound app inner stage) (hpins : Pins inner inner') :
    a.Sound app inner' stage := by
  cases stage with
  | ready | session =>
    obtain ⟨key, hkey, hsig⟩ := h
    exact ⟨key, hpins _ _ hkey, hsig⟩
  | _ => exact h

theorem sound_answer (text : Option Text) : a.Sound app inner (.answer text) := by
  unfold Stage.answer
  split <;> trivial

theorem sound_looked {r : Except StoreError (Option Bytes)}
    (h : ∀ pinned, r = .ok pinned → pinned = inner.users.get? a.user) :
    a.Sound app inner (a.looked app sig r) := by
  cases r with
  | error e => trivial
  | ok pinned =>
    unfold Attempt.looked
    dsimp only
    split
    · rename_i hsig
      cases hkey : pinned with
      | some key =>
        rw [hkey] at hsig
        exact ⟨key, by rw [← h pinned rfl, hkey], hsig⟩
      | none =>
        rw [hkey] at hsig
        cases app.openRegistration <;> exact hsig
    · trivial

theorem sound_counted {r : Except StoreError ℕ} (h : a.Answered app a.claimedKey sig) :
    a.Sound app inner (a.counted sig r) := by
  unfold Attempt.counted
  split
  · exact h
  · cases a.invite
    · trivial
    · exact h

theorem sound_claimed {r : Except StoreError Bool} {id : String}
    (h : a.Answered app a.claimedKey sig) : a.Sound app inner (Attempt.claimed sig id r) := by
  unfold Attempt.claimed
  split
  · exact h
  · trivial

theorem sound_registered {r : Except StoreError RegisterOutcome}
    (h : a.Answered app a.claimedKey sig)
    (hnew : r = .ok .registered → inner.users.get? a.user = some a.claimedKey)
    (hold : ∀ key, r = .ok (.existing key) → inner.users.get? a.user = some key) :
    a.Sound app inner (a.registered sig r) := by
  unfold Attempt.registered
  split
  · exact ⟨a.claimedKey, hnew rfl, h⟩
  · rename_i key
    split
    · rename_i heq
      exact ⟨a.claimedKey, by rw [hold key rfl, heq], h⟩
    · trivial
  · trivial

/-- What `register_user` says is what is stored after it, also if the call is made while others
are. -/
theorem registerUser_spec (fault : Option (StoreError × Bool)) (user : String) (key : Bytes)
    (inner : MemoryInner) :
    let r := called fault (Store.MemoryStore.registerUser user key) inner
    (r.1 = .ok .registered → r.2.users.get? user = some key) ∧
      ∀ key', r.1 = .ok (.existing key') → r.2.users.get? user = some key' := by
  rcases fault with _ | ⟨e, done⟩
  · cases hget : inner.users.get? user with
    | none =>
      simp only [called, Store.MemoryStore.registerUser, hget]
      refine ⟨fun _ => Js.Dict.get?_set_self _ _ _, fun key' h => ?_⟩
      cases h
    | some old =>
      simp only [called, Store.MemoryStore.registerUser, hget]
      refine ⟨fun h => ?_, fun key' h => ?_⟩
      · cases h
      · cases h
        rfl
  · constructor
    · intro h
      cases h
    · intro key' h
      cases h

/-- **A handshake stays sound as it goes on.** -/
theorem Attempt.Sound.advance (h : a.Sound app inner stage) (e : Event) :
    a.Sound app (a.advance app stage e inner).2 (a.advance app stage e inner).1 := by
  unfold Attempt.advance
  split
  · exact sound_answer _
  · rename_i sig fault now
    refine sound_looked fun pinned hr => ?_
    -- Reading the key changes nothing.
    rcases fault with _ | ⟨e, done⟩
    · cases hr
      rfl
    · cases hr
  · exact sound_counted h
  · exact sound_claimed h
  · rename_i sig claim fault now
    obtain ⟨hnew, hold⟩ := registerUser_spec fault a.user a.claimedKey inner
    exact sound_registered h hnew hold
  · rename_i sig ok
    cases ok
    · trivial
    · exact h
  · exact h

/-! ### All connections -/

/-- The handshake of a connection is sound. -/
def Conn.Sound (app : App) (inner : MemoryInner) : Conn → Prop
  | .challenged a stage => a.Sound app inner stage
  | _ => True

theorem Conn.Sound.mono {conn : Conn} (h : conn.Sound app inner) (hpins : Pins inner inner') :
    conn.Sound app inner' := by
  cases conn with
  | challenged a stage => exact Attempt.Sound.mono h hpins
  | _ => trivial

theorem Conn.Sound.advance {conn : Conn} (h : conn.Sound app inner) (e : Event) :
    (conn.advance app e inner).1.Sound app (conn.advance app e inner).2 := by
  cases conn with
  | hello =>
    cases e with
    | hello text nonce sent =>
      change (Conn.greet nonce sent text).Sound app inner
      unfold Conn.greet
      split
      · trivial
      · split
        · trivial
        · cases sent <;> trivial
      · trivial
    | _ => trivial
  | refused => trivial
  | challenged a stage => exact Attempt.Sound.advance h e

/-- **No step changes the key of a user.** -/
theorem pins_step (app : App) (s : Relay) (act : Act) : Pins s.inner (s.step app act).inner := by
  rcases inner_step app s act with h | ⟨c, h⟩ <;> rw [h]
  · exact .refl s.inner
  · exact pins_after s.inner c

theorem pins_run (app : App) (s : Relay) (acts : List Act) :
    Pins s.inner (acts.foldl (Relay.step app) s).inner :=
  foldl_preserves (P := fun s' => Pins s.inner s'.inner)
    (fun s' act h => h.trans (pins_step app s' act)) acts (.refl s.inner)

def Relay.Sound (app : App) (s : Relay) : Prop := ∀ conn ∈ s.conns, conn.Sound app s.inner

/-- **Every step keeps all handshakes sound**, that of the connection that goes on, and those of the
others. -/
theorem Relay.Sound.step {s : Relay} (h : s.Sound app) (act : Act) :
    (s.step app act).Sound app := by
  have hpins := pins_step app s act
  cases act with
  | accept => exact List.forall_mem_append.mpr ⟨h, List.forall_mem_singleton.mpr trivial⟩
  | other c hc => exact fun conn hconn => (h conn hconn).mono hpins
  | advance i e =>
    cases hi : s.conns[i]? with
    | none =>
      rw [Relay.step_of_none hi]
      exact h
    | some conn =>
      rw [Relay.step_of_some hi] at hpins ⊢
      intro conn' hconn
      rcases List.mem_or_eq_of_mem_set hconn with hmem | rfl
      · exact (h conn' hmem).mono hpins
      · exact (h conn (List.mem_of_getElem? hi)).advance e

/-! ### Nonces -/

/-- No two connections have been challenged with one nonce. -/
def Relay.Distinct (s : Relay) : Prop :=
  ∀ i j nonce, s.nonce i = some nonce → s.nonce j = some nonce → i = j

/-- The nonce of a connection stays, and one that gets a nonce has none before. -/
theorem Conn.nonce_advance (app : App) (e : Event) (inner : MemoryInner) (conn : Conn) :
    (conn.advance app e inner).1.nonce = conn.nonce ∨
      conn.nonce = none ∧ ∃ text nonce sent, e = .hello text nonce sent ∧
        (conn.advance app e inner).1.nonce = some nonce := by
  cases conn with
  | hello =>
    cases e with
    | hello text nonce sent =>
      change (Conn.greet nonce sent text).nonce = none ∨ _ ∧ ∃ text' nonce' sent', _ ∧
        (Conn.greet nonce sent text).nonce = some nonce'
      unfold Conn.greet
      split
      · exact .inl rfl
      · split
        · exact .inl rfl
        · exact .inr ⟨rfl, _, nonce, sent, rfl, rfl⟩
      · exact .inl rfl
    | _ => exact .inl rfl
  | refused => exact .inl rfl
  | challenged a stage => exact .inl rfl

/-- The nonces after a step: as before, or a connection has got the one that is drawn. -/
theorem Relay.nonce_step (app : App) (s : Relay) (act : Act) :
    (∀ i, (s.step app act).nonce i = s.nonce i) ∨
      ∃ i, s.nonce i = none ∧ (∃ nonce ∈ act.drawn, (s.step app act).nonce i = some nonce) ∧
        ∀ j ≠ i, (s.step app act).nonce j = s.nonce j := by
  cases act with
  | accept =>
    refine .inl fun i => ?_
    change ((s.conns ++ [Conn.hello])[i]?).bind Conn.nonce = _
    rw [List.getElem?_append]
    split
    · rfl
    · have hnone : s.conns[i]? = none := List.getElem?_eq_none (by omega)
      rw [Relay.nonce, hnone]
      rcases i - s.conns.length with _ | _ <;> rfl
  | other c h => exact .inl fun i => rfl
  | advance i e =>
    cases hi : s.conns[i]? with
    | none => exact .inl fun _ => by rw [Relay.step_of_none hi]
    | some conn =>
      rw [Relay.step_of_some hi]
      have hset (j : ℕ) : (s.conns.set i (conn.advance app e s.inner).1)[j]?.bind Conn.nonce =
          if i = j then (conn.advance app e s.inner).1.nonce else s.nonce j := by
        rw [List.getElem?_set]
        split
        · rename_i heq
          have hlt : i < s.conns.length := (List.getElem?_eq_some_iff.mp hi).1
          rw [if_pos (heq ▸ hlt)]
          rfl
        · rfl
      rcases conn.nonce_advance app e s.inner with hsame | ⟨hnone, text, nonce, sent, rfl, hnew⟩
      · refine .inl fun j => (hset j).trans ?_
        split
        · rename_i heq
          rw [hsame, ← heq, Relay.nonce, hi]
          rfl
        · rfl
      · refine .inr ⟨i, ?_, ⟨nonce, rfl, (hset i).trans ?_⟩, fun j hj => ?_⟩
        · rw [Relay.nonce, hi]
          exact hnone
        · rw [if_pos rfl, hnew]
        · exact (hset j).trans (if_neg (Ne.symm hj))

/-- A connection keeps its nonce. -/
theorem Relay.nonce_run (app : App) {s : Relay} {i : ℕ} {nonce : Nonce} (h : s.nonce i = some nonce)
    (acts : List Act) : (acts.foldl (Relay.step app) s).nonce i = some nonce := by
  refine foldl_preserves (P := fun s' : Relay => s'.nonce i = some nonce) (fun s' act h' => ?_) acts h
  rcases s'.nonce_step app act with hsame | ⟨k, hnone, -, hother⟩
  · rw [hsame, h']
  · have hne : i ≠ k := by
      rintro rfl
      rw [hnone] at h'
      cases h'
    rw [hother i hne, h']

theorem Relay.Distinct.step {s : Relay} (h : s.Distinct) {act : Act} (hfresh : Fresh s act) :
    (s.step app act).Distinct := by
  intro i j nonce hi hj
  rcases s.nonce_step app act with hsame | ⟨k, -, ⟨new, hdrawn, hk⟩, hother⟩
  · exact h i j nonce (by rw [← hsame, hi]) (by rw [← hsame, hj])
  · -- Nobody had the nonce that is drawn.
    have hnew (l : ℕ) : s.nonce l ≠ some new := by
      intro hl
      obtain ⟨conn, hconn, hnonce⟩ := Option.bind_eq_some_iff.mp hl
      exact hfresh new hdrawn conn (List.mem_of_getElem? hconn) hnonce
    have hof (l : ℕ) (hl : (s.step app act).nonce l = some nonce) (hne : l ≠ k) :
        s.nonce l = some nonce := by rw [← hother l hne, hl]
    by_cases hik : i = k
    · subst hik
      rw [hk] at hi
      by_contra hne
      exact hnew j (hi ▸ hof j hj (Ne.symm hne))
    · by_cases hjk : j = k
      · subst hjk
        rw [hk] at hj
        exact absurd (hj ▸ hof i hi hik) (hnew i)
      · exact h i j nonce (hof i hi hik) (hof j hj hjk)

/-! ### Sessions -/

/-- **A handle is pinned to one key.**  However the handshakes of any number of connections go on,
the key that is stored for a user stays.  A session as a user answered its own challenge with a
signature that is good under the key that is stored for the user from then on, and that signature
was made for no other connection and no other handle.  The signed bytes are injective. -/
theorem sessions_pinned (app : App) (made : Bytes → Bytes → Bytes → Prop)
    (hunforgeable : Unforgeable app.ed made) (start : MemoryInner) (acts later : List Act)
    (hfresh : Along (Relay.step app) Fresh ⟨start, []⟩ (acts ++ later)) :
    let s := acts.foldl (Relay.step app) ⟨start, []⟩
    let s' := later.foldl (Relay.step app) s
    (∀ user key, s.inner.users.get? user = some key → s'.inner.users.get? user = some key) ∧
      (∀ i a sig globalAdmin, s.conns[i]? = some (.challenged a (.session sig globalAdmin)) →
        ∃ key, s.inner.users.get? a.user = some key ∧ s'.inner.users.get? a.user = some key ∧
          verifySig app.ed key (signed a.nonce a.user) sig = true ∧
          made key (signed a.nonce a.user) sig ∧
          ∀ j nonce user, s'.nonce j = some nonce → made key (signed nonce user) sig →
            j = i ∧ user = a.user) ∧
      ∀ nonce nonce' user user',
        signed nonce user = signed nonce' user' → nonce = nonce' ∧ user = user' := by
  intro s s'
  have hpins : Pins s.inner s'.inner := pins_run app s later
  have hsound : s.Sound app :=
    foldl_preserves (fun _ act h => h.step act) acts fun conn hconn => by cases hconn
  have hdistinct : s'.Distinct := by
    have hstart : Relay.Distinct ⟨start, []⟩ := fun i j nonce hi => by cases hi
    have hrun := Along.preserves (P := Relay.Distinct) (fun _ _ h hok => h.step hok) hfresh hstart
    rwa [List.foldl_append] at hrun
  refine ⟨hpins, fun i a sig globalAdmin hi => ?_, fun nonce nonce' user user' h => signed_inj h⟩
  obtain ⟨key, hkey, hsig⟩ := hsound _ (List.mem_of_getElem? hi)
  have hmade : made key (signed a.nonce a.user) sig := by
    have hall := hsig
    simp only [Attempt.Answered, verifySig, Bool.and_eq_true] at hall
    exact hunforgeable.genuine hall.2
  refine ⟨key, hkey, hpins _ _ hkey, hsig, hmade, fun j nonce user hj hother => ?_⟩
  -- One signature, one message, so one nonce and one handle.
  obtain ⟨rfl, huser⟩ := signed_inj (hunforgeable.single hother hmade)
  have hnonce : s.nonce i = some a.nonce := by
    rw [Relay.nonce, hi]
    rfl
  exact ⟨hdistinct j i a.nonce hj (Relay.nonce_run app hnonce later), huser⟩

/-- Messages of 64 bytes that are their own signatures, under every key. -/
def plain : Ed25519 := { validKey := fun _ => true, verifyStrict := fun _ message sig => sig == message }

/-- A relay where everybody may register. -/
def openRelay : App := { ed := plain, openRegistration := true, admins := [] }

/-- A connection says hello as a user with a key of one repeated byte, and answers a challenge of
another. -/
def Act.answering (i : ℕ) (user : String) (key nonce : UInt8) : List Act :=
  [.accept,
    .advance i (.hello (some (.hello ⟨user, some (.replicate 32 key), none⟩)) (.replicate 32 nonce)
      true),
    .advance i (.auth (some (.auth (some (signed (.replicate 32 nonce) user)))))]

/-- Two connections look for the key of a user who has none, and then both register. -/
def twoKeys : List Act :=
  Act.answering 0 "alice@quorum.io" 1 1 ++ Act.answering 1 "alice@quorum.io" 2 2 ++
    [.advance 0 (.called none 0), .advance 1 (.called none 0),
      .advance 1 (.called none 0), .advance 0 (.called none 0), .advance 1 (.sent true)]

theorem first_key_pinned :
    let s := twoKeys.foldl (Relay.step openRelay) ⟨.empty, []⟩
    (∃ a, s.conns[0]? = some (.challenged a (.closed (some "auth failed")))) ∧
      ∃ key, s.inner.users.get? "alice@quorum.io" = some key ∧
        verifySig plain key (signed (.replicate 32 2) "alice@quorum.io")
          (signed (.replicate 32 2) "alice@quorum.io") = true := by
  intro s
  have hunforgeable : Unforgeable plain fun _ message sig => sig = message :=
    ⟨fun h => beq_iff_eq.mp h, fun h h' => h.symm.trans h'⟩
  have hsession : s.conns[1]? = some (.challenged
      ⟨"alice@quorum.io", .replicate 32 2, none, .replicate 32 2⟩
      (.session (signed (.replicate 32 2) "alice@quorum.io") false)) := by
    decide +kernel
  obtain ⟨-, h, -⟩ := sessions_pinned openRelay _ hunforgeable .empty twoKeys [] (by decide +kernel)
  obtain ⟨key, hkey, -, hsig, -⟩ := h 1 _ _ _ hsession
  refine ⟨⟨⟨"alice@quorum.io", .replicate 32 1, none, .replicate 32 1⟩, by decide +kernel⟩, key,
    hkey, hsig⟩

end Quorum.Handshake
