import Ripple.Proofs.Cache.Service

/-!
# Plans in pursuit

Whoever carries out a plan of any kind goes on with it move by move, as the clients of
a world do with theirs. Others may come in between all the time. What comes of the plan
is what the plan yields, and it comes once nothing else can go on.
-/

namespace Ripple
namespace Cache

variable {π α : Type} {b : Backend π} {streams : Set (List UInt8)}

/-- How far a plan has been carried out. -/
inductive Pursuit (π α : Type) where
  | following (plan : Plan π α)
  | requesting (r : Request π) (next : Except Error (Resolved π) → Plan π α)
  | compiling (u : CompileUnit π) (next : Except String (Held (Artifact π)) → Plan π α)
  | returned (a : α)
  | panicked

namespace Pursuit

variable {s s' : Schedule π} {p p' : Pursuit π α}

/-- What the plan has come to. -/
def result? : Pursuit π α → Option α
  | .returned a => some a
  | _ => none

/-- One move, as clients make it. -/
inductive Moves (b : Backend π) :
    Pursuit π α → Schedule π → Pursuit π α → Schedule π → Prop where
  | asks {s : Schedule π} {ctx : Context} {id : ProjectId}
      {next : Except Error (Resolved π) → Plan π α} :
      Moves b (.following (.request ctx id next)) s (.requesting (.of ctx id) next) s
  | goesOn {s : Schedule π} {r : Request π} {next : Except Error (Resolved π) → Plan π α}
      (hactive : r.isActive) :
      Moves b (.requesting r next) s
        (.requesting (r.step b.environment s.machine).1 next)
        (s.after (r.step b.environment s.machine).2)
  | hears {s : Schedule π} {r : Request π} {next : Except Error (Resolved π) → Plan π α}
      {result : Except Error (Resolved π)} (hresult : r.result? s.machine = some result) :
      Moves b (.requesting r next) s (.following (next result)) s
  | compiles {s : Schedule π} {u : CompileUnit π}
      {next : Except String (Held (Artifact π)) → Plan π α} :
      Moves b (.following (.compile u next)) s (.compiling u next) (s.recordCall u)
  | receives {s s' : Schedule π} {u : CompileUnit π}
      {next : Except String (Held (Artifact π)) → Plan π α}
      {result : Except String (Held (Artifact π))} (hanswer : s.answer b u = some (result, s')) :
      Moves b (.compiling u next) s (.following (next result)) s'
  | panics {s : Schedule π} {u : CompileUnit π}
      {next : Except String (Held (Artifact π)) → Plan π α} (hanswer : s.answer b u = none) :
      Moves b (.compiling u next) s .panicked s
  | consults {s : Schedule π} {key : ListingKey} {next : Option Listing → Plan π α} :
      Moves b (.following (.consult key next)) s
        (.following (next (s.tables.listings.get? key))) s
  | files {s : Schedule π} {key : ListingKey} {f : Fingerprint} {ds : List Diagnostic}
      {next : Held (List Diagnostic) → Plan π α} :
      Moves b (.following (.file key f ds next)) s
        (.following (next (s.fileListing key f ds).1)) (s.fileListing key f ds).2
  | returns {s : Schedule π} {a : α} : Moves b (.following (.done a)) s (.returned a) s

/-!
# What comes of a plan
-/

/-- Whatever happens, the plan does not panic and its result has the property. -/
def Sound (b : Backend π) (streams : Set (List UInt8)) (Q : α → Prop) (m : Machine π) :
    Pursuit π α → Prop
  | .following plan => plan.Yields b streams Q
  | .requesting r next => r.Sound b streams m ∧
      ∀ result, Answers b r.context r.project result → (next result).Yields b streams Q
  | .compiling u next => (Plan.compile u next).Yields b streams Q
  | .returned a => Q a
  | .panicked => False

variable {Q : α → Prop} {m m' : Machine π}

theorem Sound.keeps (h : p.Sound b streams Q m) (hkeeps : m.Keeps m') :
    p.Sound b streams Q m' := by
  cases p with
  | requesting r next => exact ⟨h.left.keeps hkeeps, h.right⟩
  | _ => exact h

theorem Sound.of_result? (h : p.Sound b streams Q m) {a : α} (ha : p.result? = some a) : Q a := by
  cases p with
  | returned a' =>
      cases ha
      exact h
  | _ => cases ha

theorem Sound.moves (h : p.Sound b streams Q s.machine)
    (hfree : CollisionFree b.environment streams) (hs : s.Good b streams)
    (hmove : p.Moves b s p' s') :
    s.Follows b streams s' ∧ p'.Sound b streams Q s'.machine := by
  cases hmove with
  | asks => exact ⟨.refl hs, ⟨h.left, trivial⟩, h.right h.left⟩
  | @goesOn _ r next hactive =>
      rcases h with ⟨hr, hnext⟩
      rcases Request.sound_step hfree hs.sound.machine hr with ⟨hm, hr', hext⟩
      have hsame := r.context_step b.environment s.machine
      refine ⟨⟨hs.after hm hext, hext.adds.keeps⟩, hr', ?_⟩
      rw [hsame.left, hsame.right]
      exact hnext
  | hears hresult =>
      exact ⟨.refl hs, h.right _ (Request.answers_of_result? hfree hs.sound.machine h.left hresult)⟩
  | compiles => exact ⟨Schedule.follows_recordCall hs _, h⟩
  | receives hanswer =>
      have hgood := Schedule.answer_good hs h
      rw [hanswer] at hgood
      exact hgood
  | panics hanswer =>
      have hgood := Schedule.answer_good hs h
      rw [hanswer] at hgood
      exact hgood.elim
  | consults => exact ⟨.refl hs, h _ fun l hl => hs.sound.machine.listings hl⟩
  | @files _ key f ds next =>
      rcases Schedule.fileListing_good hs h.left with ⟨hfollows, hvalue⟩
      have hnext := h.right (s.fileListing key f ds).1.stamp
      rw [← hvalue] at hnext
      exact ⟨hfollows, hnext⟩
  | returns => exact ⟨.refl hs, h⟩

/-- The result is of no interest to the cache, nor is the reply of a client. -/
def unheard : Reply π := .error .cancelled

/-- A client that makes the same moves. -/
def stage : Pursuit π α → ClientStage π
  | .following plan => .following (plan.bind fun _ => .done unheard)
  | .requesting r next => .requesting r fun result => (next result).bind fun _ => .done unheard
  | .compiling u next => .compiling u fun result => (next result).bind fun _ => .done unheard
  | .returned _ => .returned unheard
  | .panicked => .panicked

theorem Moves.stage (h : p.Moves b s p' s') : p.stage.Moves b s p'.stage s' := by
  cases h with
  | asks => exact .asks
  | goesOn hactive => exact .goesOn hactive
  | hears hresult => exact .hears hresult
  | compiles => exact .compiles
  | receives hanswer => exact .receives hanswer
  | panics hanswer => exact .panics hanswer
  | consults => exact .consults
  | files => exact .files
  | returns => exact .returns

end Pursuit
end Cache
end Ripple
