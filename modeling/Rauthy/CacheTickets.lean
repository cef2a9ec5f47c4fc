/-
Rauthy/CacheTickets.lean

Caches whose entries are stored under random names: the tickets of `Rauthy.Lib.Tickets`,
and which programs store none of them.
-/
import Rauthy.Lib.Tickets
import Rauthy.Monad

namespace Rauthy

open Prog Pool

/-- The operation has drawn the name. -/
inductive Draws : (o : Op) → o.Res → String → Prop
  | getRand (n : ℕ) (s : String) : Draws (.getRand n) s s
  | newUuid (s : String) : Draws .newUuid s s

/-- The entries of the cache `c`.  A lookup that finds nothing takes the entry as well: it has
gone before, or it goes with the lookup. -/
def cacheTickets (c : CacheName) : Tickets Op Op.Res World String where
  Issued w k := k ∈ w.issued
  Holds w k := w.cache c k ≠ none
  Draws := Draws
  Stores o k := ∃ v, o = .cachePut c k v
  Finds o x k := ∃ v, (⟨o, x⟩ : Seen Op Op.Res) = ⟨.cacheGet c k, .ok (some v)⟩
  Takes o x k := (⟨o, x⟩ : Seen Op Op.Res) = ⟨.cacheDel c k, .ok ()⟩ ∨
    (⟨o, x⟩ : Seen Op Op.Res) = ⟨.cacheGet c k, .ok none⟩

section Lawful

variable {o : Op} {x : o.Res} {w w' : World} {k : String}

theorem sem_issued (h : sem o w x w') (hk : k ∈ w.issued) : k ∈ w'.issued := by
  obtain ⟨cs, hframe⟩ := sem_tables h
  exact hframe.issued k hk

theorem sem_newUuid {s : String} (h : sem .newUuid w s w') :
    s ∉ w.issued ∧ s ∈ w'.issued := by
  obtain ⟨c, hc⟩ := h
  cases c with
  | rand s' =>
      simp only [Op.run] at hc
      split at hc
      · next hnew =>
          cases hc
          exact ⟨hnew, List.mem_cons_self⟩
      · cases hc
  | _ => cases hc

theorem cacheTickets_lawful (c : CacheName) : (cacheTickets c).Lawful sem where
  mono h k hk := sem_issued h hk
  fresh h k hd := by
    cases hd with
    | getRand n =>
        obtain ⟨hnew, -, -, rfl⟩ := sem_getRand.mp h
        exact ⟨hnew, List.mem_cons_self⟩
    | newUuid => exact sem_newUuid h
  stored {o w x w'} h k hk := by
    obtain ⟨v, hv⟩ := Option.ne_none_iff_exists'.mp hk
    rcases sem_cache h hv with hold | hput
    · exact .inl (by show w.cache c k ≠ none; rw [hold]; simp)
    · exact .inr ⟨v, hput⟩
  found {o w x w'} h k hf := by
    obtain ⟨v, hs⟩ := hf
    cases hs
    show w.cache c k ≠ none
    rcases sem_cacheGet.mp h with ⟨hv, -⟩ | ⟨hv, -⟩ | ⟨e, he, -⟩
    · rw [← Except.ok.inj hv]
      simp
    · cases hv
    · cases he
  taken {o w x w'} h k ht := by
    have hdel : ¬ (w.del c k).cache c k ≠ none := by simp [World.del_cache]
    rcases ht with ht | ht
    · cases ht
      rcases sem_cacheDel.mp h with ⟨-, rfl⟩ | ⟨e, he, -⟩
      · exact hdel
      · cases he
    · cases ht
      rcases sem_cacheGet.mp h with ⟨hv, rfl⟩ | ⟨-, rfl⟩ | ⟨e, he, -⟩
      · show ¬ w'.cache c k ≠ none
        rw [← Except.ok.inj hv]
        simp
      · exact hdel
      · cases he

end Lawful

/-! ### Programs that store no tickets -/

/-- The operation puts nothing into the caches `cs`. -/
def Op.PutsNone (cs : List CacheName) : Op → Prop
  | .cachePut c _ _ => c ∉ cs
  | _ => True

/-- The caches whose entries are tickets. -/
def ticketCaches : List CacheName := [.authProviderCallback, .pow, .webauthnData]

variable {ε α β : Type} {cs : List CacheName}
  {o : Op} {p : Prog Op Op.Res ε α}
  {sl : List (CacheName × Slot)}

/-- No operation of the program does. -/
def PutsNone (cs : List CacheName) (p : Prog Op Op.Res ε α) : Prop := p.Within (Op.PutsNone cs)

theorem Op.PutsNone.subset {cs' : List CacheName} (h : o.PutsNone cs) (hcs : cs' ⊆ cs) :
    o.PutsNone cs' := by
  cases o with
  | cachePut c k v => exact fun hc => h (hcs hc)
  | _ => trivial

theorem Op.PutsNone.of_touches {ts : List Table} (h : o.Touches ts sl)
    (hcs : ∀ c ∈ cs, ∀ s, (c, s) ∉ sl) : o.PutsNone cs := by
  cases o with
  | cachePut c k v => exact fun hc => hcs c hc _ h
  | _ => trivial

theorem putsNone_of_touches {ts : List Table} (h : Touches ts sl p)
    (hcs : ∀ c ∈ cs, ∀ s, (c, s) ∉ sl) :
    PutsNone cs p := Within.mono h fun _ ho => Op.PutsNone.of_touches ho hcs

theorem putsNone_pure (h : Touches [] [] p) : PutsNone cs p :=
  putsNone_of_touches h (by simp)

theorem putsNone_bind {f : α → Prog Op Op.Res ε β} (hp : PutsNone cs p)
    (hf : ∀ a, PutsNone cs (f a)) : PutsNone cs (p >>= f) := within_bind hp hf

/-! ### What is promised -/

/-- The promise of `Tickets.Once` for each of the caches. -/
def OnceIn (cs : List CacheName) (tr : List (Seen Op Op.Res)) (s : Seen Op Op.Res) : Prop :=
  ∀ c ∈ cs, (cacheTickets c).Once tr s

variable {tr : List (Seen Op Op.Res)}

theorem Op.PutsNone.onceIn (h : o.PutsNone cs) (x : o.Res) : OnceIn cs tr ⟨o, x⟩ := by
  rintro c hc k ⟨v, hv⟩
  simp only at hv
  subst hv
  exact absurd hc h

theorem onceIn_put {s : Seen Op Op.Res} {k : String} (hd : Draws s.1 s.2 k) {c : CacheName}
    {v : CacheVal} (x : Except ErrorResponse Unit) :
    OnceIn cs (s :: tr) ⟨.cachePut c k v, x⟩ := by
  rintro c' - k' ⟨v', hv⟩
  cases hv
  refine ⟨[], s, tr, rfl, hd, fun u hu => ?_⟩
  rw [List.mem_singleton.mp hu]
  rintro ⟨v', hv⟩
  obtain ⟨o, x⟩ := s
  cases hd <;> cases hv

theorem sees_putsNone {G : List (Seen Op Op.Res) → Seen Op Op.Res → Prop} (hp : PutsNone cs p)
    (hG : ∀ o : Op, o.PutsNone cs → ∀ tr x, G tr ⟨o, x⟩) :
    Sees Op.Possible G p (fun _ _ => True) tr :=
  sees_of_within hp fun o ho tr x _ => hG o ho tr x

end Rauthy
