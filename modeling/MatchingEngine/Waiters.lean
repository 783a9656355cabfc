import MatchingEngine.Replies

/-!
# Waiters: the map of pending requests

"Serialize before registering so a failure here can't orphan a waiter." The map
of an API process holds exactly the requests of that process that are still
being served and were not replied to yet, and those whose client went away
before a reply came (`waiters_exact`). So no request that was answered, with a
reply or an error, leaves anything behind, and no process wakes another's.
-/

namespace MatchingEngine

open HashModel SystemModel

/-- Every waiter is that of a handler that waits. -/
def Waiters (servers : ℕ → ApiServer) (handlers : HashMap Uuid Handler) : Prop :=
  ∀ i id, id ∈ (servers i).pending ↔
    ∃ h, handlers.lookup id = some h ∧ h.server = i ∧ h.waits = true

section

variable {cfg : Config} {g g' : Gateway} {a : GatewayAction} {servers : ℕ → ApiServer}
  {handlers : HashMap Uuid Handler} {i : ℕ} {id : Uuid} {h h' : Handler}

theorem Handler.move_waits {m : Move} (hmove : h.move m = some h') :
    h'.server = h.server ∧ h'.waits = h.waits := by
  refine ⟨(Handler.move_frame hmove).1, ?_⟩
  unfold Handler.waits
  cases m with
  | answer =>
      simp only [Handler.move] at hmove
      split at hmove
      · rename_i reply hphase hslot
        cases hmove
        simp [hphase, hslot, Phase.registers]
      · cases hmove
  | _ =>
      simp only [Handler.move] at hmove
      repeat' split at hmove
      all_goals cases hmove
      all_goals simp_all [Phase.registers]

/-- One handler in place of another, and its process' map. -/
theorem Waiters.set (hw : Waiters servers handlers) {server : ApiServer} (hserver : h'.server = i)
    (hold : ∀ h, handlers.lookup id = some h → h.server = i)
    (hid : id ∈ server.pending ↔ h'.waits = true)
    (hothers : ∀ id' ≠ id, id' ∈ server.pending ↔ id' ∈ (servers i).pending) :
    Waiters (Function.update servers i server) (handlers.insert id h') := by
  intro j id'
  rw [Function.update_apply, lookup_insert_ite]
  by_cases hsame : id' = id
  · rw [if_pos hsame, hsame]
    split
    · rename_i hj
      rw [hid]
      constructor
      · exact fun hwaits => ⟨h', rfl, hserver.trans hj.symm, hwaits⟩
      · rintro ⟨_, heq, _, hwaits⟩
        cases heq
        exact hwaits
    · rename_i hj
      refine iff_of_false (fun hin => ?_) ?_
      · obtain ⟨h, hlookup, hh, _⟩ := (hw j id).mp hin
        exact hj (hh.symm.trans (hold h hlookup))
      · rintro ⟨_, heq, hh, _⟩
        cases heq
        exact hj (hh.symm.trans hserver)
  · rw [if_neg hsame]
    split
    · rename_i hj
      rw [hothers id' hsame, hj]
      exact hw i id'
    · exact hw j id'

/-- The same, where the map stays. -/
theorem Waiters.setHandler (hw : Waiters servers handlers) (hlookup : handlers.lookup id = some h)
    (hserver : h'.server = h.server) (hwaits : h'.waits = h.waits) :
    Waiters servers (handlers.insert id h') := by
  have hpending : id ∈ (servers h.server).pending ↔ h'.waits = true := by
    rw [hw h.server id, hwaits]
    constructor
    · rintro ⟨h₀, hlookup₀, _, hwaits₀⟩
      rw [hlookup] at hlookup₀
      cases hlookup₀
      exact hwaits₀
    · exact fun hwaits₀ => ⟨h, hlookup, rfl, hwaits₀⟩
  have hset := hw.set hserver
    (fun h₀ hlookup₀ => by rw [hlookup] at hlookup₀; cases hlookup₀; rfl) hpending
    fun _ _ => Iff.rfl
  rwa [Function.update_eq_self] at hset

/-- **One action**. -/
theorem Waiters.stepped (hw : Waiters g.servers g.handlers) (h : Served cfg g a g') :
    Waiters g'.servers g'.handlers := by
  cases h with
  | engine => exact hw
  | @submit i envelope hfresh =>
      refine hw.set rfl (fun h hlookup => ?_) ?_ fun id' hne => ?_
      · rw [hfresh] at hlookup
        cases hlookup
      · exact iff_of_true (Finset.mem_insert_self _ _) rfl
      · rw [Finset.mem_insert]
        exact ⟨fun hin => hin.resolve_left hne, .inr⟩
  | log hlookup => exact hw.setHandler hlookup rfl rfl
  | move hlookup hmove =>
      obtain ⟨hserver, hwaits⟩ := Handler.move_waits hmove
      exact hw.setHandler hlookup hserver hwaits
  | unregister hlookup =>
      refine hw.set rfl (fun h hlookup' => ?_) ?_ fun id' hne => ?_
      · rw [hlookup] at hlookup'
        cases hlookup'
        rfl
      · exact iff_of_false (Finset.notMem_erase _ _) (by simp [Handler.waits, Phase.registers])
      · rw [Finset.mem_erase]
        exact ⟨fun hin => hin.2, fun hin => ⟨hne, hin⟩⟩
  | listen _ i subscriber =>
      intro j id
      rw [servers_setServer]
      split
      · rename_i hj
        rw [hj]
        exact hw i id
      · exact hw j id
  | @hear i next reply h hreply hwaits hlookup =>
      obtain ⟨h₀, hlookup₀, hserver, _⟩ := (hw i _).mp hwaits
      rw [hlookup] at hlookup₀
      cases hlookup₀
      refine hw.set hserver (fun h hlookup' => ?_) ?_ fun id' hne => ?_
      · rw [hlookup] at hlookup'
        cases hlookup'
        exact hserver
      · exact iff_of_false (Finset.notMem_erase _ _) (by simp [Handler.waits])
      · rw [Finset.mem_erase]
        exact ⟨fun hin => hin.2, fun hin => ⟨hne, hin⟩⟩
  | restart i =>
      intro j id
      have hlost : ∀ h : Handler, (h.lose i).server = h.server ∧
          ((h.lose i).waits = true ↔ h.server ≠ i ∧ h.waits = true) := by
        intro h
        unfold Handler.lose
        split
        · rename_i hi
          simp [Handler.waits, Phase.registers, hi.1]
        · rename_i hi
          refine ⟨rfl, fun hwaits => ⟨fun hserver => hi ⟨hserver, ?_⟩, hwaits⟩, And.right⟩
          exact (Bool.and_eq_true_iff.mp hwaits).1
      rw [servers_setServer, lookup_mapValues]
      split
      · rename_i hj
        refine iff_of_false (Finset.notMem_empty id) ?_
        rintro ⟨h', hlookup, hserver, hwaits⟩
        obtain ⟨h, _, rfl⟩ := Option.map_eq_some_iff.mp hlookup
        rw [(hlost h).1] at hserver
        exact ((hlost h).2.mp hwaits).1 (hserver.trans hj)
      · rename_i hj
        rw [hw j id]
        constructor
        · rintro ⟨h, hlookup, hserver, hwaits⟩
          refine ⟨h.lose i, by rw [hlookup]; rfl, (hlost h).1.trans hserver, ?_⟩
          exact (hlost h).2.mpr ⟨fun hi => hj (hserver.symm.trans hi), hwaits⟩
        · rintro ⟨h', hlookup', hserver, hwaits⟩
          obtain ⟨h, hlookup, rfl⟩ := Option.map_eq_some_iff.mp hlookup'
          exact ⟨h, hlookup, (hlost h).1.symm.trans hserver, ((hlost h).2.mp hwaits).2⟩

end

/-- **The waiters are exact**, in every run: the map of a process holds the ids of
its requests that are not answered, not removed and not replied to, and of no
others; once a request is answered its id is in no map. -/
theorem waiters_exact {cfg : Config} {g : Gateway}
    (hruns : Runs (Gateway.step cfg) (fun _ _ => True) .init g) :
    (∀ i id, id ∈ (g.servers i).pending ↔
      ∃ h, g.handlers.lookup id = some h ∧ h.server = i ∧ h.waits = true) ∧
      ∀ id h result, g.handlers.lookup id = some h → h.phase = .done result →
        ∀ i, id ∉ (g.servers i).pending := by
  have hw : Waiters g.servers g.handlers := by
    refine hruns.invariant (motive := fun g => Waiters g.servers g.handlers) ?_
      fun _ _ _ hw _ htaken => hw.stepped (Gateway.step_cases htaken)
    intro i id
    refine iff_of_false (Finset.notMem_empty id) ?_
    rintro ⟨_, hlookup, _⟩
    cases hlookup
  refine ⟨hw, fun id h result hlookup hdone i hin => ?_⟩
  obtain ⟨h', hlookup', _, hwaits⟩ := (hw i id).mp hin
  rw [hlookup] at hlookup'
  cases hlookup'
  simp [Handler.waits, hdone, Phase.registers] at hwaits

/-- A request that was answered is waited for by nobody; a client that went away
still is. -/
theorem waiters_exact_dropped : ∃ (g : Gateway) (h : Handler),
    Runs (Gateway.step everyCommand) (fun _ _ => True) .init g ∧
      (∀ i, 7 ∉ (g.servers i).pending) ∧
      g.handlers.lookup 9 = some h ∧ h.server = 0 ∧ h.waits = true := by
  have hcheck : (exec (Gateway.step everyCommand) (fun _ _ => true) .init
      (gatewayBoot ++ answered 1 7 ++
        [.submit 0 { depositEnvelope 3 with correlationId := 9 }, .move 9 .drop])).any (fun g =>
      decide (g.response? 7 = some (.deposit (.ok 10)) ∧ 9 ∈ (g.servers 0).pending)) = true := by
    decide +kernel
  obtain ⟨g, hruns, hg⟩ := exists_run (fun _ _ _ => trivial) hcheck
  obtain ⟨hanswer, hwaiter⟩ := of_decide_eq_true hg
  obtain ⟨hexact, hgone⟩ := waiters_exact hruns
  obtain ⟨h, hlookup, hserver, hwaits⟩ := (hexact 0 9).mp hwaiter
  obtain ⟨_, hlookup', hdone⟩ := Gateway.done_of_response? hanswer
  exact ⟨g, h, hruns, hgone 7 _ _ hlookup' hdone, hlookup, hserver, hwaits⟩

end MatchingEngine
