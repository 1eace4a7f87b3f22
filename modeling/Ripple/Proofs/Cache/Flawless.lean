import Ripple.Proofs.Cache.Fidelity

/-!
# Compiles that do not fail

A project that has a fingerprint is there, and so are all projects that it depends on. So
where no compile fails tasks come to no errors, whatever has been asked for and whatever
collides.
-/

namespace Ripple

namespace Context

variable {ctx : Context} {environment : String} {id : ProjectId} {f : Fingerprint}

theorem project_of_print (h : ctx.print environment id = .ok f) :
    ∃ p, ctx.workspace.project? id = some p := by
  rcases print_eq_ok_iff.mp h with ⟨p, _, hp, _⟩
  exact ⟨p, hp⟩

/-- What a project with a fingerprint depends on has fingerprints as well. -/
theorem print_of_effective (h : ctx.print environment id = .ok f) {c : ProjectId}
    (hc : c ∈ ctx.graph.effectiveDependencies id) : ∃ g, ctx.print environment c = .ok g := by
  rcases print_eq_ok_iff.mp h with ⟨_, found, _, hfound, _⟩
  rcases prints_eq_ok_iff.mp hfound with ⟨hids, hrows⟩
  rw [← hids] at hc
  rcases List.mem_map.mp hc with ⟨row, hrow, rfl⟩
  exact ⟨row.2, hrows row hrow⟩

end Context

namespace Cache

variable {π : Type} {b : Backend π}

/-!
# Requests and tasks
-/

/-- A request is refused only if its project has no fingerprint. -/
theorem Request.not_refused_of_moves {r r' : Request π} {m m' : Machine π}
    (hmove : r.Moves b.environment m (r', m'))
    (hprint : ∃ f, r.context.print b.environment r.project = .ok f)
    (h : ∀ e, r.stage ≠ .settled (.error e)) : ∀ e, r'.stage ≠ .settled (.error e) := by
  intro e hstage'
  rcases resolved_of_moves hmove (congrArg RequestStage.resolved? hstage') with
    hold | ⟨f, a, hok, _⟩ | ⟨e', _, herror⟩
  · cases hstage : r.stage with
    | settled result =>
        rw [hstage] at hold
        cases hold
        exact h e hstage
    | _ =>
        rw [hstage] at hold
        cases hold
  · cases hok
  · rcases hprint with ⟨f, hf⟩
    rw [hf] at herror
    cases herror

/-- A task that gathers what it needs and is answered comes to no error. -/
theorem Task.isOk_of_moves {gateOpen : Bool} {k : Nat} {t t' : Task π} {m m' : Machine π}
    (hm : m.Formed) (ht : m.tasks.get? k = some t)
    (hproject : ∃ p, t.context.workspace.project? t.project = some p)
    (hcompiles : ∀ u, ∃ a, b.compile u = .compiled a)
    (hanswers : ∀ {asked left}, t.stage = .gathering asked left → ∀ r ∈ asked,
      ∀ result, r.result? m = some result → ∃ found, result = .ok found)
    (h : ∀ o, t.stage.produced? = some o → ∃ a, o = .ok a)
    (hmove : t.Moves b gateOpen k m m') (ht' : m'.tasks.get? k = some t') :
    ∀ o, t'.stage.produced? = some o → ∃ a, o = .ok a := by
  have hset {m₁ : Machine π} {s : TaskStage π} (ht₁ : m₁.tasks.get? k = some t)
      (ht' : (m₁.setStage k s).tasks.get? k = some t')
      (hs : ∀ o, s.produced? = some o → ∃ a, o = .ok a) :
      ∀ o, t'.stage.produced? = some o → ∃ a, o = .ok a := by
    rw [Machine.get?_setStage_self ht₁] at ht'
    cases ht'
    exact hs
  cases hmove with
  | unknown hstage hnone =>
      rcases hproject with ⟨p, hp⟩
      rw [hp] at hnone
      cases hnone
  | stepped hstage hactive hrequest =>
      exact hset ((Request.formed_of_moves hm hrequest).right ht) ht' nofun
  | failed hstage hgathered =>
      exact absurd hgathered (isOk_of_gathered? (hanswers hstage))
  | @answered u hstage hopen =>
      refine hset ht ht' ?_
      rcases hcompiles u with ⟨a, ha⟩
      rw [ha]
      rintro o ⟨⟩
      exact ⟨_, rfl⟩
  | landed hstage | crashed hstage | diverted hstage | stored hstage | cleared hstage
  | announced hstage | swept hstage =>
      rw [hstage] at h
      exact hset ht ht' h
  | _ => exact hset ht ht' nofun

/-!
# Worlds
-/

namespace World

variable {allowed : Set Upkeep} {settings : CacheSettings} {w w' : World π}

/-- No task has come to an error, and none has been refused what it asks for. -/
structure Flawless (w : World π) : Prop where
  tasks : ∀ {k t}, w.machine.tasks.get? k = some t →
    ∀ o, t.stage.produced? = some o → ∃ a, o = .ok a
  requests : ∀ {k r}, w.Asks (.task k) r → ∀ e, r.stage ≠ .settled (.error e)

theorem flawless_start (settings : CacheSettings) : (start settings : World π).Flawless where
  tasks := nofun
  requests := by
    intro k r hr
    cases hr with
    | task ht hstage hr => cases ht

/-- A request that has not been refused is answered with an artifact. -/
theorem Flawless.answers (h : w.Flawless) (htraced : w.Traced {b}) {a : Asker} {r : Request π}
    (hr : w.Asks a r) (hunrefused : ∀ e, r.stage ≠ .settled (.error e))
    {result : Except Error (Resolved π)} (hresult : r.result? w.machine = some result) :
    ∃ found, result = .ok found := by
  unfold Request.result? at hresult
  cases hstage : r.stage with
  | settled result' =>
      rw [hstage] at hresult
      cases hresult
      cases result with
      | ok found => exact ⟨found, rfl⟩
      | error e => exact absurd hstage (hunrefused e)
  | waiting f k =>
      rw [hstage] at hresult
      rcases htraced.awaited hr hstage with ⟨t, ht, _, _⟩
      rcases Option.map_eq_some_iff.mp hresult with ⟨o, ho, rfl⟩
      have houtcome : t.stage.outcome? = some o := by
        simpa [Machine.outcome?, ht] using ho
      have hsettled := (TaskStage.settled?_of_outcome? houtcome).left
      rcases h.tasks ht o (TaskStage.produced?_of_settled? hsettled) with ⟨held, rfl⟩
      exact ⟨⟨f, held⟩, rfl⟩
  | _ =>
      rw [hstage] at hresult
      cases hresult

theorem Flawless.turn (h : w.Flawless) (htidy : w.Tidy) (htraced : w.Traced {b})
    (hcompiles : ∀ u, ∃ a, b.compile u = .compiled a) (hturn : w.Turn {b} allowed w') :
    w'.Flawless := by
  constructor
  · intro k t' ht'
    cases task_of_turn htidy.formed hturn ht' with
    | stays ht => exact h.tasks ht
    | moved hb ht hmove heq =>
        cases Set.mem_singleton_iff.mp hb
        refine Task.isOk_of_moves htidy.formed ht
          (Context.project_of_print (htraced.tasks ht).print) hcompiles ?_ (h.tasks ht) hmove ht'
        intro asked left hstage r hr result hresult
        have hasks := Asks.task ht hstage hr
        exact h.answers htraced hasks (h.requests hasks) hresult
    | tookOff hr hjoining heq =>
        subst heq
        exact nofun
  · intro k r' hr'
    cases comes_of_turn htidy.formed hturn hr' with
    | stays hr => exact h.requests hr
    | made hstage horigin =>
        intro e hsettled
        rw [hstage] at hsettled
        cases hsettled
    | moved hb hr hprinted hmove hkeeps =>
        cases Set.mem_singleton_iff.mp hb
        refine Request.not_refused_of_moves hmove ?_ (h.requests hr)
        cases hr with
        | task ht hstage hmem =>
            rcases htidy.requests (.task ht hstage hmem) ht with ⟨hctx, hdep⟩
            rw [hctx]
            exact Context.print_of_effective (htraced.tasks ht).print hdep

theorem flawless_of_attained (hcompiles : ∀ u, ∃ a, b.compile u = .compiled a)
    (h : w.Attained {b} allowed settings) : w.Flawless := by
  induction h with
  | refl => exact flawless_start settings
  | tail hreach hturn ih =>
      exact ih.turn (tidy_of_attained hreach) (traced_of_attained hreach) hcompiles hturn

end World
end Cache
end Ripple
