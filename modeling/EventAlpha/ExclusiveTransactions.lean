import EventAlpha.RunLog
import Mathlib.Logic.Function.Basic

/-!
# Transactions under one lock

Clients whose transactions all begin by asking for the same lock, and hold it
until they end.  A transaction is a program of statements.  Each statement reads
what is committed at its time, and nothing of a transaction shows before it
ends.  A client may fail at any moment: the server then rolls its transaction
back and lets go of the lock.

In whatever order the clients move, they might have run one after the other, in
the order in which they ended (`Run.serialized`).  The lock leaves nobody
behind: in every state that is reached, each client that waits can still end
(`Serialized.can_end`).
-/

namespace ExclusiveTransactions

open RunLog

variable {σ P R ι : Type*}

/-- A transaction: where it begins, what a statement does at a committed state,
and how it ends, with a reply and what it commits, if it is not rolled back. -/
structure Transaction (σ P R : Type*) where
  start : P
  statement : σ → P → P
  outcome : P → Option (R × Option σ)

/-- What is left of a transaction that nobody disturbs: its reply and what is
committed after it. -/
inductive Transaction.Evaluates (transaction : Transaction σ P R) (committed : σ) :
    P → R × σ → Prop
  | finish {p : P} {reply : R} {written : Option σ}
      (hdone : transaction.outcome p = some (reply, written)) :
      Evaluates transaction committed p (reply, written.getD committed)
  | statement {p : P} {result : R × σ} (hopen : transaction.outcome p = none)
      (hrest : Evaluates transaction committed (transaction.statement committed p) result) :
      Evaluates transaction committed p result

namespace Transaction.Evaluates

variable {transaction : Transaction σ P R} {committed : σ} {p : P} {result : R × σ}

theorem of_done (h : transaction.Evaluates committed p result) {reply : R} {written : Option σ}
    (hdone : transaction.outcome p = some (reply, written)) :
    result = (reply, written.getD committed) := by
  cases h with
  | finish hdone' =>
      obtain ⟨rfl, rfl⟩ := Prod.mk.inj (Option.some.inj (hdone'.symm.trans hdone))
      rfl
  | statement hopen _ => simp [hopen] at hdone

theorem of_open (h : transaction.Evaluates committed p result)
    (hopen : transaction.outcome p = none) :
    transaction.Evaluates committed (transaction.statement committed p) result := by
  cases h with
  | finish hdone => simp [hopen] at hdone
  | statement _ hrest => exact hrest

end Transaction.Evaluates

/-- Where a client is. -/
inductive ClientPhase (P R : Type*)
  | idle
  | waiting
  | working (p : P)
  | ended (reply : R)
  | lost

/-- What is committed, who has the lock, and where each client is. -/
structure Server (σ P R ι : Type*) where
  committed : σ
  holder : Option ι
  phase : ι → ClientPhase P R

/-- What a client does next. -/
inductive ClientAction
  | ask
  | grant
  | statement
  | finish
  | crash
  deriving DecidableEq

/-- Nobody has asked for the lock yet. -/
def Server.start (committed : σ) : Server σ P R ι := ⟨committed, none, fun _ => .idle⟩

/-- A client is answered. -/
def ClientPhase.Answered (phase : ClientPhase P R) : Prop := ∃ reply, phase = .ended reply

variable [DecidableEq ι]

/-- One client moves, and the others stay where they are. -/
def Server.move (server : Server σ P R ι) (client : ι) (phase : ClientPhase P R) : Server σ P R ι :=
  { server with phase := Function.update server.phase client phase }

@[simp] theorem Server.move_self (server : Server σ P R ι) (client : ι) (phase : ClientPhase P R) :
    (server.move client phase).phase client = phase := by
  show Function.update server.phase client phase client = phase
  rw [Function.update_self]

theorem Server.move_of_ne (server : Server σ P R ι) {client other : ι} (hne : other ≠ client)
    (phase : ClientPhase P R) : (server.move client phase).phase other = server.phase other := by
  show Function.update server.phase client phase other = server.phase other
  rw [Function.update_of_ne hne]

/-- The steps of the clients. -/
inductive ClientStep (transactions : ι → Transaction σ P R) :
    Server σ P R ι → ι × ClientAction → Server σ P R ι → Prop
  | ask {server : Server σ P R ι} {client : ι} (hphase : server.phase client = .idle) :
      ClientStep transactions server (client, .ask) (server.move client .waiting)
  | grant {server : Server σ P R ι} {client : ι} (hphase : server.phase client = .waiting)
      (hfree : server.holder = none) :
      ClientStep transactions server (client, .grant)
        { server.move client (.working (transactions client).start) with holder := some client }
  | statement {server : Server σ P R ι} {client : ι} {p : P}
      (hphase : server.phase client = .working p)
      (hopen : (transactions client).outcome p = none) :
      ClientStep transactions server (client, .statement)
        (server.move client (.working ((transactions client).statement server.committed p)))
  | finish {server : Server σ P R ι} {client : ι} {p : P} {reply : R} {written : Option σ}
      (hphase : server.phase client = .working p)
      (hdone : (transactions client).outcome p = some (reply, written)) :
      ClientStep transactions server (client, .finish)
        { server.move client (.ended reply) with
          committed := written.getD server.committed, holder := none }
  | crash {server : Server σ P R ι} {client : ι} (hphase : server.phase client ≠ .idle) :
      ClientStep transactions server (client, .crash)
        { server.move client .lost with
          holder := if server.holder = some client then none else server.holder }

/-- The clients that ended, in order. -/
def ends (moves : List (Move (Server σ P R ι) (ι × ClientAction))) : List ι :=
  (moves.filter (fun move => move.action.2 = .finish)).map (fun move => move.action.1)

omit [DecidableEq ι] in
theorem ends_snoc_finish (moves : List (Move (Server σ P R ι) (ι × ClientAction)))
    (server server' : Server σ P R ι) (client : ι) :
    ends (moves ++ [⟨server, (client, .finish), server'⟩]) = ends moves ++ [client] := by
  simp [ends]

omit [DecidableEq ι] in
theorem ends_snoc_of_ne (moves : List (Move (Server σ P R ι) (ι × ClientAction)))
    (server server' : Server σ P R ι) (client : ι) {action : ClientAction}
    (hne : action ≠ .finish) :
    ends (moves ++ [⟨server, (client, action), server'⟩]) = ends moves := by
  simp [ends, hne]

/-- The clients one after the other, each on what the one before it left. -/
def replay (run : ι → σ → R × σ) (first : σ) (clients : List ι) : σ :=
  clients.foldl (fun committed client => (run client committed).2) first

omit [DecidableEq ι] in
@[simp] theorem replay_snoc (run : ι → σ → R × σ) (first : σ) (clients : List ι) (client : ι) :
    replay run first (clients ++ [client]) = (run client (replay run first clients)).2 := by
  simp [replay]

/-- The server is where the clients that ended would have brought it one after
the other, and the holder of the lock is on its way to its own result. -/
structure Serialized (transactions : ι → Transaction σ P R) (run : ι → σ → R × σ) (first : σ)
    (clients : List ι) (server : Server σ P R ι) : Prop where
  committed : server.committed = replay run first clients
  nodup : clients.Nodup
  finished : ∀ client ∈ clients, server.phase client = .lost ∨ (server.phase client).Answered
  ended : ∀ client reply, server.phase client = .ended reply → ∃ earlier later,
    clients = earlier ++ client :: later ∧ reply = (run client (replay run first earlier)).1
  working : ∀ client p, server.phase client = .working p → server.holder = some client ∧
    (transactions client).Evaluates server.committed p (run client server.committed)
  held : ∀ client, server.holder = some client → ∃ p, server.phase client = .working p

variable {transactions : ι → Transaction σ P R} {run : ι → σ → R × σ} {first : σ}
  {clients : List ι} {server server' : Server σ P R ι} {client : ι}

omit [DecidableEq ι] in
theorem serialized_start : Serialized transactions run first [] (.start first) where
  committed := rfl
  nodup := List.nodup_nil
  finished client h := by simp at h
  ended client reply h := nomatch h
  working client p h := nomatch h
  held client h := nomatch h

namespace Serialized

omit [DecidableEq ι] in
/-- A client that is still to end has not ended. -/
theorem notMem (h : Serialized transactions run first clients server)
    (hlost : server.phase client ≠ .lost) (hended : ¬(server.phase client).Answered) :
    client ∉ clients := by
  intro hmem
  rcases h.finished client hmem with hphase | hphase
  · exact hlost hphase
  · exact hended hphase

/-- A client that does not hold the lock moves, and neither ends nor begins. -/
theorem move (h : Serialized transactions run first clients server) {phase : ClientPhase P R}
    (hholder : server.holder ≠ some client) (hworking : ∀ p, phase ≠ .working p)
    (hended : ¬phase.Answered) (hfinished : phase = .lost ∨ client ∉ clients) :
    Serialized transactions run first clients (server.move client phase) where
  committed := h.committed
  nodup := h.nodup
  finished other hmem := by
    by_cases hother : other = client
    · subst hother
      rw [Server.move_self]
      rcases hfinished with hphase | hnot
      · exact .inl hphase
      · exact absurd hmem hnot
    · rw [Server.move_of_ne _ hother]
      exact h.finished other hmem
  ended other reply hphase := by
    by_cases hother : other = client
    · subst hother
      rw [Server.move_self] at hphase
      exact absurd ⟨reply, hphase⟩ hended
    · rw [Server.move_of_ne _ hother] at hphase
      exact h.ended other reply hphase
  working other p hphase := by
    by_cases hother : other = client
    · subst hother
      rw [Server.move_self] at hphase
      exact absurd hphase (hworking p)
    · rw [Server.move_of_ne _ hother] at hphase
      exact h.working other p hphase
  held other hother := by
    have hne : other ≠ client := by
      intro heq
      exact hholder (heq ▸ hother)
    obtain ⟨p, hp⟩ := h.held other hother
    exact ⟨p, (Server.move_of_ne _ hne _).trans hp⟩

/-- The lock is let go of, and what its holder did is forgotten. -/
theorem release (h : Serialized transactions run first clients server)
    (hholder : server.holder = some client) :
    Serialized transactions run first clients
      { server.move client .lost with holder := none } where
  committed := h.committed
  nodup := h.nodup
  finished other hmem := by
    by_cases hother : other = client
    · subst hother
      exact .inl (Server.move_self _ _ _)
    · have hphase := h.finished other hmem
      rwa [← Server.move_of_ne server hother .lost] at hphase
  ended other reply hphase := by
    by_cases hother : other = client
    · subst hother
      have hlost : ClientPhase.lost = .ended reply :=
        (Server.move_self server other .lost).symm.trans hphase
      exact nomatch hlost
    · exact h.ended other reply ((Server.move_of_ne server hother .lost).symm.trans hphase)
  working other p hphase := by
    by_cases hother : other = client
    · subst hother
      have hlost : ClientPhase.lost = .working p :=
        (Server.move_self server other .lost).symm.trans hphase
      exact nomatch hlost
    · have hwork := h.working other p ((Server.move_of_ne server hother .lost).symm.trans hphase)
      have heq : client = other := Option.some.inj (hholder.symm.trans hwork.1)
      exact absurd heq.symm hother
  held other hother := nomatch hother

variable (client) in
/-- The lock is granted, or its holder runs a statement. -/
theorem work (h : Serialized transactions run first clients server) {p : P}
    (hfree : ∀ other, server.holder = some other → other = client) (hnot : client ∉ clients)
    (heval : (transactions client).Evaluates server.committed p (run client server.committed)) :
    Serialized transactions run first clients
      { server.move client (.working p) with holder := some client } where
  committed := h.committed
  nodup := h.nodup
  finished other hmem := by
    have hother : other ≠ client := fun heq => hnot (heq ▸ hmem)
    have hphase := h.finished other hmem
    rwa [← Server.move_of_ne server hother (.working p)] at hphase
  ended other reply hphase := by
    by_cases hother : other = client
    · subst hother
      have hwork : ClientPhase.working p = .ended reply :=
        (Server.move_self server other (.working p)).symm.trans hphase
      exact nomatch hwork
    · exact h.ended other reply
        ((Server.move_of_ne server hother (.working p)).symm.trans hphase)
  working other p' hphase := by
    by_cases hother : other = client
    · subst hother
      have hwork : ClientPhase.working p = .working p' :=
        (Server.move_self server other (.working p)).symm.trans hphase
      obtain rfl := ClientPhase.working.inj hwork
      exact ⟨rfl, heval⟩
    · have hwork := h.working other p'
        ((Server.move_of_ne server hother (.working p)).symm.trans hphase)
      exact absurd (hfree other hwork.1) hother
  held other hother := by
    obtain rfl := Option.some.inj hother
    exact ⟨p, Server.move_self _ _ _⟩

/-- The holder of the lock ends: it is the next of the clients. -/
theorem finish (h : Serialized transactions run first clients server) {p : P} {reply : R}
    {written : Option σ} (hphase : server.phase client = .working p)
    (hdone : (transactions client).outcome p = some (reply, written)) :
    Serialized transactions run first (clients ++ [client])
      { server.move client (.ended reply) with
        committed := written.getD server.committed, holder := none } := by
  obtain ⟨hholder, heval⟩ := h.working client p hphase
  have hresult := heval.of_done hdone
  have hnot : client ∉ clients :=
    h.notMem (by simp [hphase]) (by simp [hphase, ClientPhase.Answered])
  refine ⟨?_, ?_, ?_, ?_, ?_, fun other hother => nomatch hother⟩
  · rw [replay_snoc, ← h.committed, hresult]
  · rw [(List.perm_append_singleton client clients).nodup_iff, List.nodup_cons]
    exact ⟨hnot, h.nodup⟩
  · intro other hmem
    by_cases hother : other = client
    · subst hother
      exact .inr ⟨reply, Server.move_self _ _ _⟩
    · have hmem' : other ∈ clients := by simpa [hother] using hmem
      have hfinished := h.finished other hmem'
      rwa [← Server.move_of_ne server hother (.ended reply)] at hfinished
  · intro other reply' hended
    by_cases hother : other = client
    · subst hother
      have heq : ClientPhase.ended reply = .ended reply' :=
        (Server.move_self server other (.ended reply)).symm.trans hended
      obtain rfl := ClientPhase.ended.inj heq
      exact ⟨clients, [], rfl, by rw [← h.committed, hresult]⟩
    · obtain ⟨earlier, later, rfl, hreply⟩ := h.ended other reply'
        ((Server.move_of_ne server hother (.ended reply)).symm.trans hended)
      exact ⟨earlier, later ++ [client], by rw [List.append_assoc, List.cons_append], hreply⟩
  · intro other p' hwork
    by_cases hother : other = client
    · subst hother
      have heq : ClientPhase.ended reply = .working p' :=
        (Server.move_self server other (.ended reply)).symm.trans hwork
      exact nomatch heq
    · have hwork' := h.working other p'
        ((Server.move_of_ne server hother (.ended reply)).symm.trans hwork)
      have heq : client = other := Option.some.inj (hholder.symm.trans hwork'.1)
      exact absurd heq.symm hother

/-- One step of a client. -/
theorem step (h : Serialized transactions run first clients server)
    (hrun : ∀ client committed, (transactions client).Evaluates committed
      (transactions client).start (run client committed))
    {moves : List (Move (Server σ P R ι) (ι × ClientAction))} (hends : ends moves = clients)
    {action : ι × ClientAction} (hstep : ClientStep transactions server action server') :
    Serialized transactions run first (ends (moves ++ [⟨server, action, server'⟩])) server' := by
  subst hends
  cases hstep with
  | @ask client hphase =>
      rw [ends_snoc_of_ne _ _ _ _ (by decide)]
      have hholder : server.holder ≠ some client := by
        intro hholder
        obtain ⟨p, hp⟩ := h.held client hholder
        simp [hphase] at hp
      exact h.move hholder (by simp) (by simp [ClientPhase.Answered])
        (.inr (h.notMem (by simp [hphase]) (by simp [hphase, ClientPhase.Answered])))
  | @grant client hphase hfree =>
      rw [ends_snoc_of_ne _ _ _ _ (by decide)]
      exact h.work client (by simp [hfree])
        (h.notMem (by simp [hphase]) (by simp [hphase, ClientPhase.Answered])) (hrun client _)
  | @statement client p hphase hopen =>
      rw [ends_snoc_of_ne _ _ _ _ (by decide)]
      obtain ⟨hholder, heval⟩ := h.working client p hphase
      have hwork := h.work client (by simp [hholder])
        (h.notMem (by simp [hphase]) (by simp [hphase, ClientPhase.Answered])) (heval.of_open hopen)
      rw [← hholder] at hwork
      exact hwork
  | finish hphase hdone =>
      rw [ends_snoc_finish]
      exact h.finish hphase hdone
  | @crash client hphase =>
      rw [ends_snoc_of_ne _ _ _ _ (by decide)]
      by_cases hholder : server.holder = some client
      · rw [if_pos hholder]
        exact h.release hholder
      · rw [if_neg hholder]
        exact h.move hholder (by simp) (by simp [ClientPhase.Answered]) (.inl rfl)

end Serialized

/-- **Any interleaving is a sequence of whole transactions.** -/
theorem Run.serialized (hrun : ∀ client committed, (transactions client).Evaluates committed
      (transactions client).start (run client committed))
    {moves : List (Move (Server σ P R ι) (ι × ClientAction))}
    (h : Run (ClientStep transactions) (.start first) moves server) :
    Serialized transactions run first (ends moves) server := by
  induction h with
  | nil => exact serialized_start
  | snoc _ hstep ih => exact ih.step hrun rfl hstep

variable (server) in
/-- What is left of a transaction can be run to its end. -/
theorem Transaction.Evaluates.can_end {p : P} {result : R × σ}
    (h : (transactions client).Evaluates server.committed p result)
    (hphase : server.phase client = .working p) :
    ∃ moves server', Run (ClientStep transactions) server moves server' ∧ server'.holder = none ∧
      (server'.phase client).Answered ∧
      ∀ other, other ≠ client → server'.phase other = server.phase other := by
  generalize hcommitted : server.committed = committed at h
  induction h generalizing server with
  | finish hdone =>
      refine ⟨_, _, Run.nil.snoc (.finish hphase hdone), rfl, ⟨_, Server.move_self _ _ _⟩, ?_⟩
      intro other hother
      exact Server.move_of_ne _ hother _
  | @statement p result hopen hrest ih =>
      subst hcommitted
      have hstep := ClientStep.statement hphase hopen
      obtain ⟨moves, server', hmoves, hfree, hanswered, hsame⟩ :=
        ih _ (Server.move_self _ _ _) rfl
      refine ⟨_, server', (Run.nil.snoc hstep).append hmoves, hfree, hanswered, ?_⟩
      intro other hother
      rw [hsame other hother, Server.move_of_ne _ hother]

namespace Serialized

/-- A client that works can end. -/
theorem working_can_end (h : Serialized transactions run first clients server) {p : P}
    (hphase : server.phase client = .working p) :
    ∃ moves server', Run (ClientStep transactions) server moves server' ∧ server'.holder = none ∧
      (server'.phase client).Answered ∧
      ∀ other, other ≠ client → server'.phase other = server.phase other :=
  (h.working client p hphase).2.can_end server hphase

/-- With the lock free, a client that waits can end. -/
theorem free_can_end (hrun : ∀ client committed, (transactions client).Evaluates committed
      (transactions client).start (run client committed))
    (hphase : server.phase client = .waiting) (hfree : server.holder = none) :
    ∃ moves server', Run (ClientStep transactions) server moves server' ∧
      (server'.phase client).Answered := by
  have hgrant : ClientStep transactions server (client, .grant) _ := .grant hphase hfree
  obtain ⟨moves, server', hmoves, -, hanswered, -⟩ :=
    (hrun client server.committed).can_end
      { server.move client (.working (transactions client).start) with holder := some client }
      (Server.move_self _ _ _)
  exact ⟨_, server', (Run.nil.snoc hgrant).append hmoves, hanswered⟩

/-- **Nobody is left behind.**  Whoever waits or works can still end. -/
theorem can_end (h : Serialized transactions run first clients server)
    (hrun : ∀ client committed, (transactions client).Evaluates committed
      (transactions client).start (run client committed))
    (hphase : server.phase client = .waiting ∨ ∃ p, server.phase client = .working p) :
    ∃ moves server', Run (ClientStep transactions) server moves server' ∧
      (server'.phase client).Answered := by
  rcases hphase with hwaiting | ⟨p, hworking⟩
  · cases hholder : server.holder with
    | none => exact free_can_end hrun hwaiting hholder
    | some other =>
        -- the holder ends first, which leaves the lock to the client
        obtain ⟨p, hp⟩ := h.held other hholder
        obtain ⟨moves, middle, hmoves, hfree, -, hsame⟩ := h.working_can_end hp
        have hne : client ≠ other := by
          intro heq
          subst heq
          simp [hwaiting] at hp
        obtain ⟨more, server', hmore, hanswered⟩ :=
          free_can_end hrun ((hsame client hne).trans hwaiting) hfree
        exact ⟨moves ++ more, server', hmoves.append hmore, hanswered⟩
  · obtain ⟨moves, server', hmoves, -, hanswered, -⟩ := h.working_can_end hworking
    exact ⟨moves, server', hmoves, hanswered⟩

end Serialized

end ExclusiveTransactions
