/-
The numbers of the sequence-number service follow time: a client that has its
number before another sends its request has the smaller one.
-/
import MyFreeLib.PipeDemoSequence

namespace MyFreeLib

namespace PipeDemo

/-- Requests and clients only come on top. -/
def Grows (s t : State) : Prop :=
  s.sent <+: t.sent ∧
    s.clients.map Client.pid <+: t.clients.map Client.pid

theorem Grows.of_pids {s t : State} (hsent : t.sent = s.sent)
    (hpids : t.clients.map Client.pid = s.clients.map Client.pid) :
    Grows s t :=
  ⟨hsent ▸ List.prefix_rfl, hpids ▸ List.prefix_rfl⟩

theorem serverNext_grows {s t : State} (h : serverNext s = some t) :
    Grows s t := by
  unfold serverNext at h
  split at h
  · unfold serverRead at h
    split at h
    · cases h
    · simp only at h
      split at h <;> cases h <;> exact .of_pids rfl rfl
  · cases h
    unfold serverOpen
    simp only
    split
    · exact .of_pids rfl rfl
    · exact .of_pids rfl (setFifo_pids _ _ _)
  · obtain ⟨c, -, hopen⟩ := Option.bind_eq_some_iff.mp h
    obtain ⟨-, rfl⟩ := guarded_eq_some.mp hopen
    exact .of_pids rfl rfl
  · cases h
    unfold serverWrite
    simp only
    split
    · exact .of_pids rfl rfl
    · split
      · exact .of_pids rfl rfl
      · split
        · exact .of_pids rfl (setFifo_pids _ _ _)
        · exact .of_pids rfl rfl
  · cases h
    unfold serverClose
    simp only
    split
    · exact .of_pids rfl rfl
    · exact .of_pids rfl (setFifo_pids _ _ _)

theorem clientReceives_pid {c c' : Client} (h : clientReceives c = some c') :
    c'.pid = c.pid := by
  unfold clientReceives at h
  split at h
  · cases h
    rfl
  · obtain ⟨-, rfl⟩ := guarded_eq_some.mp h
    rfl
  · unfold clientRead at h
    simp only at h
    split at h
    · cases h
    · split at h <;> cases h <;> rfl
  · cases h
    rfl
  · cases h

theorem clientMkfifo_pid (s : State) (c : Client) :
    (clientMkfifo s c).pid = c.pid := by
  unfold clientMkfifo
  split <;> rfl

theorem next_grows {s t : State} {label : Label}
    (h : next s label = some t) : Grows s t := by
  cases label with
  | launch pid resp =>
      simp only [next] at h
      split at h
      · cases h
      · cases h
        refine ⟨List.prefix_rfl, ?_⟩
        rw [List.map_append]
        exact List.prefix_append _ _
  | server => exact serverNext_grows h
  | client i =>
      obtain ⟨c, hc, hmove⟩ := Option.bind_eq_some_iff.mp h
      unfold clientNext at hmove
      split at hmove
      · cases hmove
        exact .of_pids rfl (map_set_eq hc (clientMkfifo_pid s c))
      · cases hmove
        exact .of_pids rfl (map_set_eq hc rfl)
      · cases hmove
        have hpids : (s.clients.set i { c with pc := .openFifo }).map
            Client.pid = s.clients.map Client.pid := map_set_eq hc rfl
        exact ⟨List.prefix_append _ _, hpids ▸ List.prefix_rfl⟩
      · obtain ⟨c', hc', rfl⟩ := Option.map_eq_some_iff.mp hmove
        exact .of_pids rfl (map_set_eq hc (clientReceives_pid hc'))
  | stop i unlinks =>
      obtain ⟨c, hc, hstop⟩ := Option.bind_eq_some_iff.mp h
      obtain ⟨c', hc', rfl⟩ := Option.map_eq_some_iff.mp hstop
      unfold clientStop at hc'
      split at hc'
      · cases hc'
      · cases hc'
      · cases hc'
        exact .of_pids rfl (map_set_eq hc rfl)

theorem exec_grows {s t : State} {labels : List Label}
    (hrun : exec next s labels = some t) : Grows s t := by
  have hstep (u : State) (label : Label) (v : State) (hu : Grows s u)
      (hnext : next u label = some v) : Grows s v := by
    have hgrows := next_grows hnext
    exact ⟨hu.1.trans hgrows.1, hu.2.trans hgrows.2⟩
  exact exec_invariant hstep ⟨List.prefix_rfl, List.prefix_rfl⟩ hrun

/-- Where one client has its number before another, running already or not,
sends its request, the first number is the smaller one. -/
theorem numbers_in_order {req : List Byte} {front back : List Label}
    {s t : State} (hfront : exec next (start req) front = some s)
    (hback : exec next s back = some t) (hcount : t.sent.length < 2 ^ 31)
    {i j : ℕ} {c d : Client} (hc : s.clients[i]? = some c)
    (hanswer : c.answer.length = responseSize)
    (hunsent : ∀ x, s.clients[j]? = some x → x.unsent)
    (hd : t.clients[j]? = some d)
    (hlater : d.answer.length = responseSize) :
    bytesInt c.answer < bytesInt d.answer := by
  have hs : Inv s := exec_invariant next_inv (start_inv req) hfront
  have ht : Inv t := exec_invariant next_inv hs hback
  obtain ⟨hsent, hpids⟩ := exec_grows hback
  have hcount' : s.sent.length < 2 ^ 31 := hsent.length_le.trans_lt hcount
  obtain ⟨k, -, hk, hnumc⟩ :=
    hs.received hcount' (List.mem_of_getElem? hc) hanswer
  obtain ⟨l, -, hl, hnumd⟩ :=
    ht.received hcount (List.mem_of_getElem? hd) hlater
  have hlate : s.sent.length ≤ l := by
    by_contra hearly
    -- then the request was there in `s` already
    obtain ⟨pid, hpid⟩ : ∃ pid, s.sent[l]? = some pid :=
      ⟨_, List.getElem?_eq_getElem (Nat.not_le.mp hearly)⟩
    have hsame : pid = d.pid :=
      Option.some.inj ((getElem?_of_front hsent hpid).symm.trans hl)
    have hknown := hs.roster.known pid (List.mem_of_getElem? hpid)
    obtain ⟨x, hx, hxpid⟩ := List.mem_map.mp hknown
    obtain ⟨m, hm⟩ := List.mem_iff_getElem?.mp hx
    have hmt : (t.clients.map Client.pid)[m]? = some pid := by
      refine getElem?_of_front hpids ?_
      rw [List.getElem?_map, hm, Option.map_some, hxpid]
    rw [List.getElem?_map] at hmt
    obtain ⟨y, hy, hypid⟩ := Option.map_eq_some_iff.mp hmt
    have hmj : m = j := ht.roster.index_eq hy hd (hypid.trans hsame)
    subst hmj
    refine hs.roster.unsent x hx (hunsent x hm) ?_
    exact hxpid ▸ List.mem_of_getElem? hpid
  have hearlier : k < s.sent.length := (List.getElem?_eq_some_iff.mp hk).1
  omega

/-- A client of the given index makes its calls up to its read. -/
def service (i : ℕ) : List Label :=
  [.client i, .client i, .client i, .server, .server, .client i, .client i,
    .server, .server, .client i, .server]

theorem numbers_in_order_oneByOne :
    ∃ s t c d, exec next (start []) (.launch 7 [] :: service 0) = some s ∧
      exec next s (.launch 12 [] :: service 1) = some t ∧
      s.clients[0]? = some c ∧ t.clients[1]? = some d ∧
      bytesInt c.answer < bytesInt d.answer := by
  have hfront : exec next (start []) (.launch 7 [] :: service 0) =
      some ((exec next (start []) (.launch 7 [] :: service 0)).get rfl) := rfl
  have hback : exec next ((exec next (start [])
      (.launch 7 [] :: service 0)).get rfl) (.launch 12 [] :: service 1) =
        some _ := rfl
  refine ⟨_, _, _, _, hfront, hback, rfl, rfl, ?_⟩
  exact numbers_in_order hfront hback (by decide) (i := 0) (j := 1) rfl rfl
    nofun rfl rfl

end PipeDemo

end MyFreeLib
