import Mathlib.Data.Multiset.AddSub
import Mathlib.Data.Multiset.MapFold
import Mathlib.Data.Multiset.Range
import DnsBlast.LabelledRuns

/-! A client and a server that exchange datagrams. The network may lose, delay, reorder
and copy them, but it makes none of its own. A request is known by its position among the
requests sent, a reply by the request it answers. -/
namespace DatagramChannels

open LabelledRuns

structure Channel (α β : Type*) where
  sent : List α
  requests : Multiset (ℕ × α)
  replies : Multiset (ℕ × β)
  arrived : List (ℕ × β)
  lost : Multiset ℕ
  copied : Multiset ℕ

/-- What happens away from the client. A server that does not answer loses the request. -/
inductive Transit (α β : Type*) where
  | respond (k : ℕ) (a : α) (b : β)
  | loseRequest (k : ℕ) (a : α)
  | loseReply (k : ℕ) (b : β)
  | copyRequest (k : ℕ) (a : α)
  | copyReply (k : ℕ) (b : β)

variable {σ ε α β : Type*}

def Channel.empty : Channel α β := ⟨[], 0, 0, [], 0, 0⟩

def Channel.send (c : Channel α β) : Option α → Channel α β
  | some a => { c with
      sent := c.sent ++ [a]
      requests := (c.sent.length, a) ::ₘ c.requests }
  | none => c

theorem Channel.send_sent (c : Channel α β) (a : Option α) :
    (c.send a).sent = c.sent ++ a.toList := by
  cases a with
  | none => exact (List.append_nil _).symm
  | some a => rfl

theorem Channel.send_arrived (c : Channel α β) (a : Option α) :
    (c.send a).arrived = c.arrived := by
  cases a with
  | none => rfl
  | some a => rfl

theorem Channel.send_lost (c : Channel α β) (a : Option α) : (c.send a).lost = c.lost := by
  cases a with
  | none => rfl
  | some a => rfl

section Moves
variable [DecidableEq β]

def Channel.deliver (c : Channel α β) : Option (ℕ × β) → Option (Channel α β)
  | some r =>
    if r ∈ c.replies then some { c with
      replies := c.replies.erase r
      arrived := c.arrived ++ [r] }
    else none
  | none => some c

theorem Channel.deliver_keeps {c d : Channel α β} {r : Option (ℕ × β)}
    (h : c.deliver r = some d) : d.sent = c.sent ∧ d.arrived = c.arrived ++ r.toList := by
  cases r with
  | none =>
    cases h
    exact ⟨rfl, (List.append_nil _).symm⟩
  | some r =>
    obtain ⟨-, h⟩ := Option.ite_none_right_eq_some.mp h
    cases h
    exact ⟨rfl, rfl⟩

theorem Channel.deliver_lost {c d : Channel α β} {r : Option (ℕ × β)}
    (h : c.deliver r = some d) : d.lost = c.lost := by
  cases r with
  | none =>
    cases h
    rfl
  | some r =>
    obtain ⟨-, h⟩ := Option.ite_none_right_eq_some.mp h
    cases h
    rfl

variable [DecidableEq α]

def Channel.transit (c : Channel α β) : Transit α β → Option (Channel α β)
  | .respond k a b =>
    if (k, a) ∈ c.requests then some { c with
      requests := c.requests.erase (k, a)
      replies := (k, b) ::ₘ c.replies }
    else none
  | .loseRequest k a =>
    if (k, a) ∈ c.requests then some { c with
      requests := c.requests.erase (k, a)
      lost := k ::ₘ c.lost }
    else none
  | .loseReply k b =>
    if (k, b) ∈ c.replies then some { c with
      replies := c.replies.erase (k, b)
      lost := k ::ₘ c.lost }
    else none
  | .copyRequest k a =>
    if (k, a) ∈ c.requests then some { c with
      requests := (k, a) ::ₘ c.requests
      copied := k ::ₘ c.copied }
    else none
  | .copyReply k b =>
    if (k, b) ∈ c.replies then some { c with
      replies := (k, b) ::ₘ c.replies
      copied := k ::ₘ c.copied }
    else none

theorem Channel.transit_keeps {c d : Channel α β} {x : Transit α β}
    (h : c.transit x = some d) : d.sent = c.sent ∧ d.arrived = c.arrived := by
  cases x with
  | _ =>
    obtain ⟨-, h⟩ := Option.ite_none_right_eq_some.mp h
    cases h
    exact ⟨rfl, rfl⟩

theorem Channel.transit_lost {c d : Channel α β} {x : Transit α β}
    (h : c.transit x = some d) : c.lost ≤ d.lost := by
  cases x with
  | loseRequest k a =>
    obtain ⟨-, h⟩ := Option.ite_none_right_eq_some.mp h
    cases h
    exact Multiset.le_cons_self _ _
  | loseReply k b =>
    obtain ⟨-, h⟩ := Option.ite_none_right_eq_some.mp h
    cases h
    exact Multiset.le_cons_self _ _
  | _ =>
    obtain ⟨-, h⟩ := Option.ite_none_right_eq_some.mp h
    cases h
    exact le_rfl

end Moves

/-- Every request and every copy is on its way, answered and on its way back, arrived or
lost, and what arrives for a request is what the server made of it. -/
structure Accounted (serves : α → β → Prop) (c : Channel α β) : Prop where
  tokens : c.requests.map Prod.fst + c.replies.map Prod.fst +
    (c.arrived.map Prod.fst : Multiset ℕ) + c.lost = Multiset.range c.sent.length + c.copied
  request : ∀ m ∈ c.requests, c.sent[m.1]? = some m.2
  reply : ∀ m ∈ c.replies, ∃ a, c.sent[m.1]? = some a ∧ serves a m.2
  arrival : ∀ m ∈ c.arrived, ∃ a, c.sent[m.1]? = some a ∧ serves a m.2

section Accounting
variable {serves : α → β → Prop} {c d : Channel α β}

theorem accounted_empty : Accounted serves (Channel.empty : Channel α β) :=
  ⟨rfl, by simp [Channel.empty], by simp [Channel.empty], by simp [Channel.empty]⟩

theorem Accounted.send (h : Accounted serves c) (a : Option α) : Accounted serves (c.send a) := by
  cases a with
  | none => exact h
  | some a =>
    have hkeep : ∀ {k : ℕ} {b : α}, c.sent[k]? = some b → (c.sent ++ [a])[k]? = some b := by
      intro k b hk
      have hlt : k < c.sent.length := (List.getElem?_eq_some_iff.mp hk).1
      rwa [List.getElem?_append_left hlt]
    refine ⟨?_, ?_, ?_, ?_⟩
    · have htokens := h.tokens
      simp only [Channel.send, Multiset.map_cons, List.length_append, List.length_singleton,
        Multiset.range_succ, Multiset.cons_add, htokens]
    · intro m hm
      rcases Multiset.mem_cons.mp hm with rfl | hm
      · exact List.getElem?_concat_length
      · exact hkeep (h.request m hm)
    · intro m hm
      obtain ⟨b, hb, hserves⟩ := h.reply m hm
      exact ⟨b, hkeep hb, hserves⟩
    · intro m hm
      obtain ⟨b, hb, hserves⟩ := h.arrival m hm
      exact ⟨b, hkeep hb, hserves⟩

theorem map_erase {γ : Type*} [DecidableEq γ] {s : Multiset (ℕ × γ)} {m : ℕ × γ} (h : m ∈ s) :
    s.map Prod.fst = m.1 ::ₘ (s.erase m).map Prod.fst := by
  rw [← Multiset.map_cons, Multiset.cons_erase h]

theorem coe_concat (l : List (ℕ × β)) (r : ℕ × β) :
    ((l ++ [r]).map Prod.fst : Multiset ℕ) = r.1 ::ₘ (l.map Prod.fst : Multiset ℕ) := by
  rw [List.map_append, List.map_singleton, Multiset.cons_coe, Multiset.coe_eq_coe]
  exact List.perm_append_singleton _ _

variable [DecidableEq β]

theorem Accounted.deliver (h : Accounted serves c) {r : Option (ℕ × β)}
    (hd : c.deliver r = some d) : Accounted serves d := by
  cases r with
  | none =>
    cases hd
    exact h
  | some r =>
    obtain ⟨hmem, hd⟩ := Option.ite_none_right_eq_some.mp hd
    cases hd
    refine ⟨?_, h.request, fun m hm => h.reply m (Multiset.mem_of_mem_erase hm), ?_⟩
    · have htokens := h.tokens
      rw [map_erase hmem] at htokens
      simpa only [coe_concat, Multiset.cons_add, Multiset.add_cons] using htokens
    · intro m hm
      rcases List.mem_append.mp hm with hm | hm
      · exact h.arrival m hm
      · rw [List.mem_singleton.mp hm]
        exact h.reply r hmem

variable [DecidableEq α]

theorem Accounted.transit (h : Accounted serves c) {x : Transit α β}
    (hx : ∀ k a b, x = .respond k a b → serves a b) (hd : c.transit x = some d) :
    Accounted serves d := by
  have htokens := h.tokens
  cases x with
  | respond k a b =>
    obtain ⟨hmem, hd⟩ := Option.ite_none_right_eq_some.mp hd
    cases hd
    refine ⟨?_, fun m hm => h.request m (Multiset.mem_of_mem_erase hm), ?_, h.arrival⟩
    · rw [map_erase hmem] at htokens
      simpa only [Multiset.map_cons, Multiset.cons_add, Multiset.add_cons] using htokens
    · intro m hm
      rcases Multiset.mem_cons.mp hm with rfl | hm
      · exact ⟨a, h.request _ hmem, hx k a b rfl⟩
      · exact h.reply m hm
  | loseRequest k a =>
    obtain ⟨hmem, hd⟩ := Option.ite_none_right_eq_some.mp hd
    cases hd
    refine ⟨?_, fun m hm => h.request m (Multiset.mem_of_mem_erase hm), h.reply, h.arrival⟩
    rw [map_erase hmem] at htokens
    simpa only [Multiset.cons_add, Multiset.add_cons] using htokens
  | loseReply k b =>
    obtain ⟨hmem, hd⟩ := Option.ite_none_right_eq_some.mp hd
    cases hd
    refine ⟨?_, h.request, fun m hm => h.reply m (Multiset.mem_of_mem_erase hm), h.arrival⟩
    rw [map_erase hmem] at htokens
    simpa only [Multiset.cons_add, Multiset.add_cons] using htokens
  | copyRequest k a =>
    obtain ⟨hmem, hd⟩ := Option.ite_none_right_eq_some.mp hd
    cases hd
    refine ⟨?_, ?_, h.reply, h.arrival⟩
    · simp only [Multiset.map_cons, Multiset.cons_add, htokens, Multiset.add_cons]
    · intro m hm
      rcases Multiset.mem_cons.mp hm with rfl | hm
      · exact h.request _ hmem
      · exact h.request m hm
  | copyReply k b =>
    obtain ⟨hmem, hd⟩ := Option.ite_none_right_eq_some.mp hd
    cases hd
    refine ⟨?_, h.request, ?_, h.arrival⟩
    · simp only [Multiset.map_cons, Multiset.cons_add, Multiset.add_cons, htokens]
    · intro m hm
      rcases Multiset.mem_cons.mp hm with rfl | hm
      · exact h.reply _ hmem
      · exact h.reply m hm

end Accounting

section Consequences
variable {serves : α → β → Prop} {c : Channel α β}

/-- Conservation of datagrams. -/
theorem Accounted.count (h : Accounted serves c) :
    c.requests.card + c.replies.card + c.arrived.length + c.lost.card =
      c.sent.length + c.copied.card := by
  simpa using congrArg Multiset.card h.tokens

theorem Accounted.known (h : Accounted serves c) {m : ℕ × β} (hm : m ∈ c.arrived) :
    m.1 < c.sent.length := by
  obtain ⟨a, ha, -⟩ := h.arrival m hm
  exact (List.getElem?_eq_some_iff.mp ha).1

/-- Where nothing was copied, no request is answered twice. -/
theorem Accounted.arrived_nodup (h : Accounted serves c) (hcopied : c.copied = 0) :
    (c.arrived.map Prod.fst).Nodup := by
  have htokens := h.tokens
  rw [hcopied, Multiset.add_zero] at htokens
  have hle : (c.arrived.map Prod.fst : Multiset ℕ) ≤ Multiset.range c.sent.length :=
    htokens ▸ (Multiset.le_add_left _ _).trans (Multiset.le_add_right _ _)
  exact Multiset.coe_nodup.mp (Multiset.nodup_of_le hle (Multiset.nodup_range _))

/-- As many arrivals as requests means that nothing is on its way and nothing was lost. -/
theorem Accounted.all_arrived_iff (h : Accounted serves c) (hcopied : c.copied = 0) :
    c.arrived.length = c.sent.length ↔ c.requests = 0 ∧ c.replies = 0 ∧ c.lost = 0 := by
  have hcount := h.count
  rw [hcopied, Multiset.card_zero] at hcount
  simp only [← Multiset.card_eq_zero]
  omega

/-- When nothing is under way, lost or copied, every request has arrived exactly once. -/
theorem Accounted.answered (h : Accounted serves c) (hcopied : c.copied = 0)
    (hall : c.requests = 0 ∧ c.replies = 0 ∧ c.lost = 0) :
    (c.arrived.map Prod.fst).Perm (List.range c.sent.length) := by
  obtain ⟨hrequests, hreplies, hlost⟩ := hall
  have htokens := h.tokens
  simp only [hrequests, hreplies, hlost, hcopied, Multiset.map_zero, Multiset.add_zero,
    Multiset.zero_add] at htokens
  exact Multiset.coe_eq_coe.mp htokens

end Consequences

structure Client (σ ε α β : Type*) where
  next : σ → ε → Option σ
  emits : σ → ε → Option α
  takes : σ → ε → Option (ℕ × β)

def clientEvents (es : List (ε ⊕ Transit α β)) : List ε := es.filterMap Sum.getLeft?

def promise (serves : α → β → Prop) (ok : σ → ε → Prop) :
    σ × Channel α β → ε ⊕ Transit α β → Prop
  | (s, _), .inl e => ok s e
  | _, .inr x => ∀ k a b, x = .respond k a b → serves a b

theorem promise_weaken {serves : α → β → Prop} {ok ok' : σ → ε → Prop}
    (h : ∀ s e, ok s e → ok' s e) (x : σ × Channel α β) (e : ε ⊕ Transit α β)
    (he : promise serves ok x e) : promise serves ok' x e := by
  cases e with
  | inl e => exact h _ _ he
  | inr y => exact he

theorem clientEvents_client (es : List (ε ⊕ Transit α β)) (e : ε) :
    clientEvents (es ++ [.inl e]) = clientEvents es ++ [e] := List.filterMap_append

theorem clientEvents_transit (es : List (ε ⊕ Transit α β)) (x : Transit α β) :
    clientEvents (es ++ [.inr x]) = clientEvents es := by
  rw [clientEvents, List.filterMap_append]
  exact List.append_nil _

section Network
variable [DecidableEq α] [DecidableEq β] (m : Client σ ε α β)

def Client.network : σ × Channel α β → ε ⊕ Transit α β → Option (σ × Channel α β)
  | (s, c), .inl e => (m.next s e).bind fun t =>
      ((c.send (m.emits s e)).deliver (m.takes s e)).map fun d => (t, d)
  | (s, c), .inr x => (c.transit x).map fun d => (s, d)

variable {m} {serves : α → β → Prop} {ok : σ → ε → Prop} {s t : σ} {c d : Channel α β}
  {es : List (ε ⊕ Transit α β)}

theorem network_accounted (hc : Accounted serves c)
    (h : Execution m.network (promise serves ok) (s, c) es (t, d)) : Accounted serves d := by
  apply h.invariant (I := fun u => Accounted serves u.2) hc
  rintro ⟨s, c⟩ e ⟨t, d⟩ hc he hn
  cases e with
  | inl e =>
    obtain ⟨u, hu, hn⟩ := Option.bind_eq_some_iff.mp hn
    obtain ⟨d', hd, hn⟩ := Option.map_eq_some_iff.mp hn
    cases hn
    exact (hc.send _).deliver hd
  | inr x =>
    obtain ⟨d', hd, hn⟩ := Option.map_eq_some_iff.mp hn
    cases hn
    exact hc.transit he hd

theorem network_sends {e : ε} (he : ok s e) (hn : m.next s e = some t)
    (htakes : m.takes s e = none) :
    Execution m.network (promise serves ok) (s, c) [.inl e] (t, c.send (m.emits s e)) := by
  have hnet : m.network (s, c) (.inl e) = some (t, c.send (m.emits s e)) := by
    simp [Client.network, hn, htakes, Channel.deliver]
  exact (Execution.refl _).tail he hnet

theorem network_receives {e : ε} {r : ℕ × β} (he : ok s e) (hn : m.next s e = some t)
    (hemits : m.emits s e = none) (htakes : m.takes s e = some r) (hr : r ∈ c.replies) :
    Execution m.network (promise serves ok) (s, c) [.inl e] (t, { c with
      replies := c.replies.erase r
      arrived := c.arrived ++ [r] }) := by
  have hnet : m.network (s, c) (.inl e) = some (t, { c with
      replies := c.replies.erase r
      arrived := c.arrived ++ [r] }) := by
    simp [Client.network, hn, hemits, htakes, Channel.send, Channel.deliver, hr]
  exact (Execution.refl _).tail he hnet

theorem network_responds {k : ℕ} {a : α} {b : β} (hserves : serves a b)
    (hmem : (k, a) ∈ c.requests) :
    Execution m.network (promise serves ok) (s, c) [.inr (.respond k a b)] (s, { c with
      requests := c.requests.erase (k, a)
      replies := (k, b) ::ₘ c.replies }) := by
  have hnet : m.network (s, c) (.inr (.respond k a b)) = some (s, { c with
      requests := c.requests.erase (k, a)
      replies := (k, b) ::ₘ c.replies }) := by
    simp [Client.network, Channel.transit, hmem]
  have hpromise : promise serves ok (s, c) (.inr (.respond k a b)) := by
    intro _ _ _ heq
    cases heq
    exact hserves
  exact (Execution.refl _).tail hpromise hnet

/-- The client may go on by itself while it neither sends nor receives. -/
theorem network_silent {fs : List ε} (hr : runTrace m.next s fs = some t)
    (hv : ValidTrace m.next ok s fs)
    (hsilent : ∀ e ∈ fs, ∀ s, m.emits s e = none ∧ m.takes s e = none) :
    Execution m.network (promise serves ok) (s, c) (fs.map .inl) (t, c) := by
  induction fs generalizing s with
  | nil =>
    cases hr
    exact .refl _
  | cons e fs ih =>
    obtain ⟨u, hu, hr⟩ := Option.bind_eq_some_iff.mp hr
    obtain ⟨hemits, htakes⟩ := hsilent e List.mem_cons_self s
    have hone : Execution m.network (promise serves ok) (s, c) [.inl e]
        (u, c.send (m.emits s e)) := network_sends hv.1 hu htakes
    rw [hemits] at hone
    exact hone.trans (ih hr (hv.2 u hu) fun f hf => hsilent f (List.mem_cons_of_mem e hf))

/-- The client of a run of the network makes a run of its own. -/
theorem network_client (h : Execution m.network (promise serves ok) (s, c) es (t, d)) :
    Execution m.next ok s (clientEvents es) t := by
  generalize hu : (t, d) = u at h
  induction h generalizing t d with
  | refl =>
    cases hu
    exact .refl s
  | @tail v u es e h he hn ih =>
    obtain ⟨t', d'⟩ := v
    subst hu
    have hrun := ih rfl
    cases e with
    | inl e =>
      obtain ⟨u, hu, hn⟩ := Option.bind_eq_some_iff.mp hn
      obtain ⟨_, -, hn⟩ := Option.map_eq_some_iff.mp hn
      cases hn
      exact clientEvents_client es e ▸ hrun.tail he hu
    | inr x =>
      obtain ⟨_, -, hn⟩ := Option.map_eq_some_iff.mp hn
      cases hn
      exact clientEvents_transit es x ▸ hrun

/-- What the client remembers to have sent and received is what the channel remembers. -/
theorem network_history (out : σ → List α) (got : σ → List (Option (ℕ × β)))
    (hout : out s = c.sent) (hgot : got s = c.arrived.map some)
    (hstep : ∀ s e t, ok s e → m.next s e = some t →
      out t = out s ++ (m.emits s e).toList ∧ got t = got s ++ (m.takes s e).toList.map some)
    (h : Execution m.network (promise serves ok) (s, c) es (t, d)) :
    out t = d.sent ∧ got t = d.arrived.map some := by
  apply h.invariant (I := fun u => out u.1 = u.2.sent ∧ got u.1 = u.2.arrived.map some)
    ⟨hout, hgot⟩
  rintro ⟨s, c⟩ e ⟨t, d⟩ ⟨hout, hgot⟩ he hn
  cases e with
  | inl e =>
    obtain ⟨u, hu, hn⟩ := Option.bind_eq_some_iff.mp hn
    obtain ⟨d', hd, hn⟩ := Option.map_eq_some_iff.mp hn
    cases hn
    obtain ⟨hsent, harrived⟩ := Channel.deliver_keeps hd
    obtain ⟨hout', hgot'⟩ := hstep s e t he hu
    simp only [hout', hgot', hout, hgot, hsent, harrived, Channel.send_sent,
      Channel.send_arrived, List.map_append, and_self]
  | inr x =>
    obtain ⟨d', hd, hn⟩ := Option.map_eq_some_iff.mp hn
    cases hn
    obtain ⟨hsent, harrived⟩ := Channel.transit_keeps hd
    simp only [hout, hgot, hsent, harrived, and_self]

/-- What is lost stays lost. -/
theorem network_lost_le (h : Execution m.network (promise serves ok) (s, c) es (t, d)) :
    c.lost ≤ d.lost := by
  apply h.invariant (I := fun u => c.lost ≤ u.2.lost) le_rfl
  rintro ⟨s', c'⟩ e ⟨t', d'⟩ hle he hn
  cases e with
  | inl e =>
    obtain ⟨u, -, hn⟩ := Option.bind_eq_some_iff.mp hn
    obtain ⟨d'', hd, hn⟩ := Option.map_eq_some_iff.mp hn
    cases hn
    rw [Channel.deliver_lost hd, Channel.send_lost]
    exact hle
  | inr x =>
    obtain ⟨d'', hd, hn⟩ := Option.map_eq_some_iff.mp hn
    cases hn
    exact hle.trans (Channel.transit_lost hd)

end Network

end DatagramChannels
