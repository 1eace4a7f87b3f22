import Ripple.Proofs.Cache.Moves
import Ripple.Proofs.Cache.Upkeep

/-!
# Tasks that stay

A task keeps its ticket and what it is for, and new tasks take tickets that no
task has had.
-/

namespace Ripple
namespace Cache

variable {π : Type}

namespace Machine

/-- There is a task with the ticket, and it is for the fingerprint. -/
def HasTask (m : Machine π) (ticket : Nat) (f : Fingerprint) : Prop :=
  ∃ t, m.tasks.get? ticket = some t ∧ t.fingerprint = f

/-- Every task is still there, with what it is for. -/
def Keeps (m m' : Machine π) : Prop :=
  ∀ ⦃ticket t⦄, m.tasks.get? ticket = some t → ∃ t', m'.tasks.get? ticket = some t' ∧
    t'.context = t.context ∧ t'.project = t.project ∧ t'.fingerprint = t.fingerprint

/-- Every task is still there, as it was. -/
def Adds (m m' : Machine π) : Prop :=
  ∀ ⦃ticket t⦄, m.tasks.get? ticket = some t → m'.tasks.get? ticket = some t

/-- Tickets are given out once, in order. -/
structure Formed (m : Machine π) : Prop where
  nodup : m.tasks.keys.Nodup
  tickets : ∀ {ticket}, ticket ∈ m.tasks.keys ↔ ticket < m.tables.nextTicket

theorem Keeps.refl (m : Machine π) : m.Keeps m :=
  fun _ t h => ⟨t, h, rfl, rfl, rfl⟩

theorem Keeps.trans {m m' m'' : Machine π} (h : m.Keeps m') (h' : m'.Keeps m'') :
    m.Keeps m'' := by
  intro ticket t ht
  rcases h ht with ⟨t', ht', hctx', hid', hf'⟩
  rcases h' ht' with ⟨t'', ht'', hctx'', hid'', hf''⟩
  exact ⟨t'', ht'', hctx''.trans hctx', hid''.trans hid', hf''.trans hf'⟩

theorem Adds.keeps {m m' : Machine π} (h : m.Adds m') : m.Keeps m' :=
  fun _ t ht => ⟨t, h ht, rfl, rfl, rfl⟩

theorem adds_of_tasks_eq {m m' : Machine π} (h : m'.tasks = m.tasks) : m.Adds m' :=
  fun _ _ ht => h ▸ ht

theorem keeps_of_tasks_eq {m m' : Machine π} (h : m'.tasks = m.tasks) : m.Keeps m' :=
  (adds_of_tasks_eq h).keeps

theorem HasTask.keeps {m m' : Machine π} {ticket : Nat} {f : Fingerprint}
    (h : m.HasTask ticket f) (hkeeps : m.Keeps m') : m'.HasTask ticket f := by
  rcases h with ⟨t, ht, rfl⟩
  rcases hkeeps ht with ⟨t', ht', _, _, hf⟩
  exact ⟨t', ht', hf⟩

theorem formed_new (settings : CacheSettings) : (new settings : Machine π).Formed :=
  ⟨List.nodup_nil, by
    simp [new, Tables.new, Table.keys, Table.empty, EmptyCollection.emptyCollection]⟩

theorem Formed.of_tasks_eq {m m' : Machine π} (h : m.Formed) (htasks : m'.tasks = m.tasks)
    (hticket : m'.tables.nextTicket = m.tables.nextTicket) : m'.Formed :=
  ⟨htasks ▸ h.nodup, htasks ▸ hticket ▸ h.tickets⟩

theorem Formed.lt_nextTicket {m : Machine π} (h : m.Formed) {ticket : Nat} {t : Task π}
    (ht : m.tasks.get? ticket = some t) : ticket < m.tables.nextTicket :=
  h.tickets.mp (Table.mem_keys_iff.mpr ⟨t, ht⟩)

theorem Formed.get?_nextTicket {m : Machine π} (h : m.Formed) :
    m.tasks.get? m.tables.nextTicket = none := by
  cases ht : m.tasks.get? m.tables.nextTicket with
  | none => rfl
  | some t => exact absurd (h.lt_nextTicket ht) (Nat.lt_irrefl _)

/-!
# A new stage
-/

theorem get?_setStage (m : Machine π) (ticket k : Nat) (s : TaskStage π) :
    (m.setStage ticket s).tasks.get? k =
      if k = ticket then (m.tasks.get? k).map fun t => { t with stage := s }
      else m.tasks.get? k :=
  Table.get?_modify ..

theorem get?_setStage_self {m : Machine π} {ticket : Nat} {t : Task π}
    (ht : m.tasks.get? ticket = some t) (s : TaskStage π) :
    (m.setStage ticket s).tasks.get? ticket = some { t with stage := s } := by
  rw [get?_setStage, if_pos rfl, ht]
  rfl

/-- The task itself, at its new stage, or another one. -/
theorem get?_of_setStage {m : Machine π} {ticket k : Nat} {t t' : Task π} {s : TaskStage π}
    (ht : m.tasks.get? ticket = some t) (ht' : (m.setStage ticket s).tasks.get? k = some t') :
    (k = ticket ∧ t' = { t with stage := s }) ∨ (k ≠ ticket ∧ m.tasks.get? k = some t') := by
  by_cases hk : k = ticket
  · rw [hk, get?_setStage_self ht] at ht'
    exact .inl ⟨hk, (Option.some.inj ht').symm⟩
  · rw [get?_setStage, if_neg hk] at ht'
    exact .inr ⟨hk, ht'⟩

theorem keeps_setStage (m : Machine π) (ticket : Nat) (s : TaskStage π) :
    m.Keeps (m.setStage ticket s) := by
  intro k t ht
  rw [get?_setStage, ht]
  by_cases hk : k = ticket
  · rw [if_pos hk]
    exact ⟨_, rfl, rfl, rfl, rfl⟩
  · rw [if_neg hk]
    exact ⟨t, rfl, rfl, rfl, rfl⟩

theorem Formed.setStage {m : Machine π} (h : m.Formed) (ticket : Nat) (s : TaskStage π) :
    (m.setStage ticket s).Formed where
  nodup := by
    rw [Machine.setStage, Table.keys_modify]
    exact h.nodup
  tickets := by
    rw [Machine.setStage, Table.keys_modify]
    exact h.tickets

end Machine

/-!
# Steps
-/

namespace Request

variable {r r' : Request π} {m m' : Machine π} {environment : String}

theorem adds_takeOff (h : m.Formed) (f : Fingerprint) : m.Adds (r.takeOff f m).2 := by
  intro ticket t ht
  have hne : ticket ≠ m.tables.nextTicket := Nat.ne_of_lt (h.lt_nextTicket ht)
  exact (Table.get?_insert_of_ne _ hne _).trans ht

theorem get?_takeOff_self (r : Request π) (f : Fingerprint) (m : Machine π) :
    (r.takeOff f m).2.tasks.get? m.tables.nextTicket =
      some ⟨r.context, r.project, f, .fresh⟩ :=
  Table.get?_insert_self ..

/-- The new task, or one that has been there. -/
theorem get?_of_takeOff {f : Fingerprint} {k : Nat} {t : Task π}
    (ht : (r.takeOff f m).2.tasks.get? k = some t) :
    (k = m.tables.nextTicket ∧ t = ⟨r.context, r.project, f, .fresh⟩) ∨
      (k ≠ m.tables.nextTicket ∧ m.tasks.get? k = some t) := by
  by_cases hk : k = m.tables.nextTicket
  · rw [hk, get?_takeOff_self] at ht
    exact .inl ⟨hk, (Option.some.inj ht).symm⟩
  · rw [takeOff, Table.get?_insert_of_ne _ hk] at ht
    exact .inr ⟨hk, ht⟩

theorem hasTask_takeOff (f : Fingerprint) :
    (r.takeOff f m).2.HasTask m.tables.nextTicket f :=
  ⟨_, Table.get?_insert_self .., rfl⟩

theorem formed_takeOff (h : m.Formed) (f : Fingerprint) : (r.takeOff f m).2.Formed where
  nodup := Table.nodup_keys_insert h.nodup _ _
  tickets := by
    intro ticket
    have hrows : (r.takeOff f m).2.tasks.rows = _ :=
      Table.rows_insert_of_get?_none h.get?_nextTicket _
    have hlt : ticket ∈ m.tasks.keys ↔ ticket < m.tables.nextTicket := h.tickets
    rw [Table.keys, hrows, List.map_append, List.mem_append, ← Table.keys, hlt,
      List.map_singleton, List.mem_singleton]
    simp only [takeOff]
    omega

theorem formed_of_moves (h : m.Formed) (hmove : r.Moves environment m (r', m')) :
    m'.Formed ∧ m.Adds m' := by
  have hsame {m₁ : Machine π} (htasks : m₁.tasks = m.tasks)
      (hticket : m₁.tables.nextTicket = m.tables.nextTicket) : m₁.Formed ∧ m.Adds m₁ :=
    ⟨h.of_tasks_eq htasks hticket, Machine.adds_of_tasks_eq htasks⟩
  generalize hnext : (r', m') = next at hmove
  cases hmove with
  | refused => cases hnext; exact hsame rfl rfl
  | found _ _ hlook => cases hnext; exact hsame rfl (Tables.within_lookUp hlook).nextTicket
  | missed => cases hnext; exact hsame rfl rfl
  | hit => cases hnext; exact hsame rfl rfl
  | miss => cases hnext; exact hsame rfl rfl
  | joined => cases hnext; exact hsame rfl rfl
  | stored _ hlook => cases hnext; exact hsame rfl (Tables.within_lookUp hlook).nextTicket
  | tookOff => cases hnext; exact ⟨formed_takeOff h _, adds_takeOff h _⟩

theorem nextTicket_le_of_moves (hmove : r.Moves environment m (r', m')) :
    m.tables.nextTicket ≤ m'.tables.nextTicket := by
  generalize hnext : (r', m') = next at hmove
  cases hmove with
  | found _ _ hlook => cases hnext; exact Nat.le_of_eq (Tables.within_lookUp hlook).nextTicket.symm
  | stored _ hlook => cases hnext; exact Nat.le_of_eq (Tables.within_lookUp hlook).nextTicket.symm
  | tookOff => cases hnext; exact Nat.le_succ _
  | _ => cases hnext; exact Nat.le_refl _

end Request

namespace Task

variable {m m' : Machine π}

/-- At most an artifact is stamped when the backend answers a task. -/
theorem within_conclude (id : ProjectId) (t : Tables π) (result : CompileResult π) :
    t.Within (conclude id t result).2 := by
  cases result with
  | compiled a => exact Tables.within_stamp t a
  | failed cause => exact .refl t
  | panicked => exact .refl t

/-- A move either is one of a request or touches no other task. -/
theorem Moves.shape {b : Backend π} {gateOpen : Bool} {ticket : Nat} {t : Task π}
    (hmove : t.Moves b gateOpen ticket m m') :
    (∃ (asked : List (Request π)) (r r' : Request π) (m₁ : Machine π)
      (left : List ProjectId), t.stage = .gathering (asked ++ [r]) left ∧
      r.Moves b.environment m (r', m₁) ∧
      m' = m₁.setStage ticket (.gathering (asked ++ [r']) left)) ∨
    ∃ (m₁ : Machine π) (s : TaskStage π), m₁.tasks = m.tasks ∧
      m₁.tables.nextTicket = m.tables.nextTicket ∧ m' = m₁.setStage ticket s := by
  cases hmove with
  | stepped hstage _ hmove =>
      exact .inl ⟨_, _, _, _, _, hstage, hmove, rfl⟩
  | answered =>
      refine .inr ⟨_, _, ?_, ?_, rfl⟩
      · rfl
      · exact (within_conclude _ _ _).nextTicket
  | swept =>
      refine .inr ⟨_, _, ?_, ?_, rfl⟩
      · rfl
      · exact (Tables.within_sweepCapacity _).nextTicket
  | _ =>
      refine .inr ⟨_, _, ?_, ?_, rfl⟩ <;> rfl

theorem formed_of_moves {b : Backend π} {gateOpen : Bool} {ticket : Nat} {t : Task π}
    (h : m.Formed) (hmove : t.Moves b gateOpen ticket m m') : m'.Formed ∧ m.Keeps m' := by
  rcases hmove.shape with ⟨asked, r, r', m₁, left, _, hrequest, rfl⟩ |
    ⟨m₁, s, htasks, hticket, rfl⟩
  · rcases Request.formed_of_moves h hrequest with ⟨hformed, hadds⟩
    exact ⟨hformed.setStage _ _, hadds.keeps.trans (Machine.keeps_setStage _ _ _)⟩
  · exact ⟨(h.of_tasks_eq htasks hticket).setStage _ _,
      (Machine.keeps_of_tasks_eq htasks).trans (Machine.keeps_setStage _ _ _)⟩

/-- A move leaves all other tasks alone. -/
theorem get?_of_moves {b : Backend π} {gateOpen : Bool} {ticket k : Nat} {t other : Task π}
    (h : m.Formed) (hmove : t.Moves b gateOpen ticket m m') (hk : k ≠ ticket)
    (hother : m.tasks.get? k = some other) : m'.tasks.get? k = some other := by
  rcases hmove.shape with ⟨_, _, _, m₁, _, _, hrequest, rfl⟩ | ⟨m₁, s, htasks, _, rfl⟩
  · rw [Machine.get?_setStage, if_neg hk]
    exact (Request.formed_of_moves h hrequest).right hother
  · rw [Machine.get?_setStage, if_neg hk, htasks, hother]

theorem nextTicket_le_of_moves {b : Backend π} {gateOpen : Bool} {ticket : Nat} {t : Task π}
    (hmove : t.Moves b gateOpen ticket m m') :
    m.tables.nextTicket ≤ m'.tables.nextTicket := by
  rcases hmove.shape with ⟨_, _, _, m₁, _, _, hrequest, rfl⟩ | ⟨m₁, s, _, hticket, rfl⟩
  · have hle : m.tables.nextTicket ≤ m₁.tables.nextTicket :=
      Request.nextTicket_le_of_moves hrequest
    exact hle
  · exact Nat.le_of_eq hticket.symm

end Task
end Cache
end Ripple
