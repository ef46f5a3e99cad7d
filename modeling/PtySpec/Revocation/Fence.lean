import PtySpec.Listing.Namespace
import PtySpec.Revocation.System

/-!
# The fence holds

What is in the store stays there, so that an acknowledged install refuses every later check;
and the claim that an install holds while it reads and observes keeps every launch whose check
has passed either in the record or without effect.
-/

namespace PtySpec.Revocation

open Registry (Text Accepted validateNameLexical)
open Listing (Answers scanSessions isTmpName listed_iff)

variable {site : Site}

/-! ### What a store keeps -/

/-- A store with every record of another one. -/
def Grows (a b : Store) : Prop :=
  (∀ k l r, a.record k l = some r → b.record k l = some r) ∧
    (a.present = true → b.present = true)

theorem Grows.refl (a : Store) : Grows a a := ⟨fun _ _ _ h ↦ h, id⟩

theorem Grows.trans {a b c : Store} (h : Grows a b) (h' : Grows b c) : Grows a c :=
  ⟨fun k l r hr ↦ h'.1 k l r (h.1 k l r hr), fun hp ↦ h'.2 (h.2 hp)⟩

/-- A record that is there is not replaced. -/
theorem grows_rename (s : Store) (directory file : Text) (r : PublicationRevocation) :
    Grows s (s.rename directory file r) := by
  unfold Store.rename
  split
  · exact .refl s
  · next hn =>
    refine ⟨fun k l old ho ↦ ?_, id⟩
    change Function.update s.record directory _ k l = some old
    by_cases hk : k = directory
    · subst hk
      rw [Function.update_self]
      by_cases hl : l = file
      · subst hl
        rw [ho] at hn
        exact absurd rfl hn
      · rw [Function.update_of_ne hl, ho]
    · rw [Function.update_of_ne hk, ho]

theorem grows_advance (store : Store) (now : Text) (answers : Answers) (req : Request)
    (phase : InstallPhase) : Grows store (req.advance site store now answers phase).1 := by
  cases phase with
  | written identity record => exact grows_rename store _ _ record
  | _ => exact .refl store

theorem Step.grows {s s' : System} (h : Step site s s') : Grows s.store s'.store := by
  cases h with
  | enroll identity h => exact ⟨fun _ _ _ h ↦ h, fun _ ↦ rfl⟩
  | advance i c now answers h phase sees => exact grows_advance _ _ _ _ _
  | _ => exact .refl _

theorem Steps.grows {s s' : System} (h : Steps site s s') : Grows s.store s'.store := by
  induction h with
  | refl => exact .refl _
  | tail _ hs ih => exact ih.trans hs.grows

/-! ### Reading the store -/

theorem record_of_readRecord {store : Store} {identity : RootIdentity} {name operation : Text}
    {r : PublicationRevocation}
    (h : store.readRecord site identity name operation = .ok (some r)) :
    store.record (site.hash name) (site.hash operation) = some (.ok r) := by
  unfold Store.readRecord at h
  split at h
  · cases h
  · cases h
  · next r' hr =>
    cases ha : audit site r' with
    | error e =>
      rw [ha] at h
      cases h
    | ok u =>
      rw [ha] at h
      change (if _ then _ else _) = _ at h
      split at h
      · cases h
      · cases h
        exact hr

/-- A read of a record depends on the record and on the identity of the root. -/
theorem readRecord_congr {a b : Store} {identity identity' : RootIdentity} {name operation : Text}
    (hi : identity.rootId = identity'.rootId)
    (h : a.record (site.hash name) (site.hash operation) =
      b.record (site.hash name) (site.hash operation)) :
    a.readRecord site identity name operation = b.readRecord site identity' name operation := by
  unfold Store.readRecord
  rw [h, hi]

/-- A store with a record never answers that there is none. -/
theorem readRecord_ne_none {store : Store} {identity : RootIdentity} {name operation : Text}
    (h : (store.record (site.hash name) (site.hash operation)).isSome) :
    store.readRecord site identity name operation ≠ .ok none := by
  unfold Store.readRecord
  intro hn
  split at hn
  · next hr =>
    rw [hr] at h
    cases h
  · cases hn
  · next r hr =>
    cases ha : audit site r with
    | error e =>
      rw [ha] at hn
      cases hn
    | ok u =>
      rw [ha] at hn
      change (if _ then _ else _) = _ at hn
      split at hn <;> cases hn

/-! ### What an install knows -/

/-- The record of a request is in the store, and is read as that. -/
structure Installed (site : Site) (store : Store) (req : Request) (r : PublicationRevocation) :
    Prop where
  present : store.present = true
  record : store.record (site.hash req.name) (site.hash req.binding.operation) = some (.ok r)
  binding : r.binding = req.binding
  intent : r.intentDigest = req.intentDigest
  read : ∀ identity : RootIdentity, identity.rootId = req.expectedRootId →
    store.readRecord site identity req.name req.binding.operation = .ok (some r)

theorem Installed.grows {a b : Store} {req : Request} {r : PublicationRevocation}
    (h : Installed site a req r) (hg : Grows a b) : Installed site b req r where
  present := hg.2 h.present
  record := hg.1 _ _ _ h.record
  binding := h.binding
  intent := h.intent
  read identity hi := by
    rw [← h.read identity hi]
    refine readRecord_congr rfl ?_
    rw [h.record, hg.1 _ _ _ h.record]

/-- A record that is the request's. -/
def Matches (req : Request) (r : PublicationRevocation) : Prop :=
  r.binding = req.binding ∧ r.intentDigest = req.intentDigest

/-- What an install knows of the store, phase by phase. -/
def InstallOk (site : Site) (store : Store) (req : Request) : InstallPhase → Prop
  | .locking identity | .pinned identity =>
    store.present = true ∧ Accepted req.name ∧ identity.rootId = req.expectedRootId
  | .publishing identity r | .written identity r =>
    store.present = true ∧ Accepted req.name ∧ identity.rootId = req.expectedRootId ∧
      Matches req r
  | .published identity r =>
    store.present = true ∧ Accepted req.name ∧ identity.rootId = req.expectedRootId ∧
      Matches req r
  | .durable r _ => Accepted req.name ∧ Installed site store req r
  | .acked result => Accepted req.name ∧ Installed site store req result.record
  | .refused _ => True

theorem InstallOk.grows {a b : Store} {req : Request} {phase : InstallPhase}
    (h : InstallOk site a req phase) (hg : Grows a b) : InstallOk site b req phase := by
  cases phase with
  | locking identity => exact ⟨hg.2 h.1, h.2⟩
  | pinned identity => exact ⟨hg.2 h.1, h.2⟩
  | publishing identity r => exact ⟨hg.2 h.1, h.2⟩
  | written identity r => exact ⟨hg.2 h.1, h.2⟩
  | published identity r => exact ⟨hg.2 h.1, h.2⟩
  | durable r already => exact ⟨h.1, h.2.grows hg⟩
  | acked result => exact ⟨h.1, h.2.grows hg⟩
  | refused failure => trivial

theorem bind_eq_ok {ε α β : Type} {x : Except ε α} {f : α → Except ε β} {b : β}
    (h : x >>= f = .ok b) : ∃ a, x = .ok a ∧ f a = .ok b := by
  cases x with
  | error e => cases h
  | ok a => exact ⟨a, rfl, h⟩

theorem accepted_of_validateName {name : Text} (h : validateName site name = .ok ()) :
    Accepted name := by
  unfold validateName at h
  split at h
  · cases h
  · next hv => exact hv

private theorem present_of_enrolled {store : Store} {identity : RootIdentity}
    (h : store.enrolled site = .ok identity) : store.present = true := by
  by_contra hp
  rw [Bool.not_eq_true] at hp
  unfold Store.enrolled at h
  cases hf : store.rootFailure with
  | some failure => simp [hf, bind, Except.bind, throw, throwThe, MonadExceptOf.throw] at h
  | none => simp [hf, hp, bind, Except.bind, throw, throwThe, MonadExceptOf.throw] at h

private theorem installOk_begin (store : Store) (req : Request) :
    InstallOk site store req (req.begin site store) := by
  unfold Request.begin
  dsimp only
  split
  · next identity h =>
    obtain ⟨_, hname, h⟩ := bind_eq_ok h
    obtain ⟨_, -, h⟩ := bind_eq_ok h
    obtain ⟨_, -, h⟩ := bind_eq_ok h
    obtain ⟨_, -, h⟩ := bind_eq_ok h
    obtain ⟨enrolled, henrolled, h⟩ := bind_eq_ok h
    by_cases hroot : enrolled.rootId = req.expectedRootId
    · rw [if_neg (not_not.mpr hroot)] at h
      cases h
      exact ⟨present_of_enrolled henrolled, accepted_of_validateName hname, hroot⟩
    · rw [if_pos hroot] at h
      cases h
  · trivial

private theorem installed_of_read {store : Store} {req : Request} {identity : RootIdentity}
    {r : PublicationRevocation} (hp : store.present = true)
    (hi : identity.rootId = req.expectedRootId) (hm : Matches req r)
    (hr : store.readRecord site identity req.name req.binding.operation = .ok (some r)) :
    Installed site store req r where
  present := hp
  record := record_of_readRecord hr
  binding := hm.1
  intent := hm.2
  read other ho := by
    rw [← hr]
    exact readRecord_congr (ho.trans hi.symm) rfl

/-- A step of an install that has the claim. -/
private theorem installOk_advance {store : Store} (now : Text) (answers : Answers)
    {req : Request} {phase : InstallPhase} (h : InstallOk site store req phase) :
    InstallOk site (req.advance site store now answers phase).1 req
      (req.advance site store now answers phase).2 := by
  cases phase with
  | locking identity => exact h
  | acked result => exact h
  | refused failure => exact h
  | pinned identity =>
    obtain ⟨hp, ha, hi⟩ := h
    unfold Request.advance Request.decide
    dsimp only
    split
    · trivial
    · next r hr =>
      split
      · trivial
      · next hm =>
        rw [not_or, not_not, not_not] at hm
        exact ⟨ha, installed_of_read hp hi hm hr⟩
    · exact ⟨hp, ha, hi, rfl, rfl⟩
  | publishing identity r => exact h
  | written identity r => exact h.grows (grows_rename store _ _ r)
  | published identity r =>
    obtain ⟨hp, ha, hi, hm⟩ := h
    unfold Request.advance Request.readBack
    dsimp only
    split
    · trivial
    · trivial
    · next durable hr =>
      split
      · trivial
      · next hd =>
        rw [not_not] at hd
        subst hd
        exact ⟨ha, installed_of_read hp hi hm hr⟩
  | durable r already =>
    unfold Request.advance Request.observe
    dsimp only
    split
    · trivial
    · exact h

/-! ### What holds in every state -/

/-- Whether a launch in this phase has the claim for sure. -/
def LaunchPhase.admitting : LaunchPhase → Bool
  | .claimed | .checked => true
  | _ => false

/-- The invariant of a run. -/
structure Inv (site : Site) (s : System) : Prop where
  install : ∀ i c, s.installs i = some c → InstallOk site s.store c.req c.phase
  installClaim : ∀ i c, s.installs i = some c → c.phase.holding = true →
    s.claim c.req.name = some (.install i)
  launchClaim : ∀ l c, s.launches l = some c → c.phase.admitting = true →
    s.claim c.cfg.name = some (.launch l)
  log : ∀ name l, l ∈ s.log name ↔
    ∃ c, s.launches l = some c ∧ c.cfg.name = name ∧ c.phase = .published
  record : ∀ name l, (s.log name).getLast? = some l →
    ∃ c, s.launches l = some c ∧ s.record name = some c.cfg.metadata

theorem Initial.inv {s : System} (h : Initial s) : Inv site s where
  install i c hc := by
    rw [h.installs] at hc
    cases hc
  installClaim i c hc := by
    rw [h.installs] at hc
    cases hc
  launchClaim l c hc := by
    rw [h.launches] at hc
    cases hc
  log name l := by
    rw [h.log, h.launches]
    simp
  record name l hl := by
    rw [h.log] at hl
    cases hl

private theorem update_cases {α : Type} {f : Nat → Option α} {i j : Nat} {x d : α}
    (h : Function.update f i (some x) j = some d) :
    j = i ∧ d = x ∨ j ≠ i ∧ f j = some d := by
  by_cases hj : j = i
  · subst hj
    rw [Function.update_self, Option.some_inj] at h
    exact .inl ⟨rfl, h.symm⟩
  · rw [Function.update_of_ne hj] at h
    exact .inr ⟨hj, h⟩

private theorem release_of_ne {p q : Party} {claim : Text → Option Party} {name : Text}
    (hpq : q ≠ p) (h : claim name = some q) : release p claim name = some q := by
  unfold release
  rw [h, if_neg fun he ↦ hpq (Option.some_inj.mp he)]

/-- A step that leaves the launches, the records and the log alone. -/
private theorem Inv.of_installs {s s' : System} (h : Inv site s) (hg : Grows s.store s'.store)
    (hl : s'.launches = s.launches) (hr : s'.record = s.record) (hlog : s'.log = s.log)
    (hi : ∀ i c, s'.installs i = some c → s.installs i = some c ∨
      InstallOk site s'.store c.req c.phase)
    (hic : ∀ i c, s'.installs i = some c → c.phase.holding = true →
      s'.claim c.req.name = some (.install i))
    (hlc : ∀ name l, s.claim name = some (.launch l) → s'.claim name = some (.launch l)) :
    Inv site s' where
  install i c hc := (hi i c hc).elim (fun ho ↦ (h.install i c ho).grows hg) id
  installClaim := hic
  launchClaim l c hc hp := hlc _ _ (h.launchClaim l c (hl ▸ hc) hp)
  log := by
    rw [hl, hlog]
    exact h.log
  record := by
    rw [hl, hlog, hr]
    exact h.record

/-- A step of one install. -/
private theorem Inv.withInstall {s : System} (h : Inv site s) {i : Nat} {c : Install}
    (hc : s.installs i = some c) {phase : InstallPhase} {store : Store}
    (hg : Grows s.store store) (hok : InstallOk site store c.req phase)
    (hh : phase.holding = true → c.phase.holding = true) :
    Inv site { s.withInstall i c phase with store := store } := by
  refine h.of_installs hg rfl rfl rfl ?_ ?_ ?_
  · intro j d hd
    obtain ⟨rfl, rfl⟩ | ⟨-, hd⟩ := update_cases hd
    · exact .inr hok
    · exact .inl hd
  · intro j d hd hp
    change (if phase.holding then s.claim else release (.install i) s.claim) d.req.name = _
    obtain ⟨rfl, rfl⟩ | ⟨hj, hd⟩ := update_cases hd
    · have hp' : phase.holding = true := hp
      rw [if_pos hp']
      exact h.installClaim j c hc (hh hp')
    · have hclaim := h.installClaim j d hd hp
      split
      · exact hclaim
      · exact release_of_ne (fun he ↦ hj (Party.install.inj he)) hclaim
  · intro name l hn
    change (if phase.holding then s.claim else release (.install i) s.claim) name = _
    split
    · exact hn
    · exact release_of_ne Party.noConfusion hn

private theorem update_of_free {p q : Party} {claim : Text → Option Party} {name other : Text}
    (hf : claim name = none) (h : claim other = some q) :
    Function.update claim name (some p) other = some q := by
  rw [Function.update_of_ne, h]
  rintro rfl
  rw [hf] at h
  cases h

/-- A step of one launch that does not publish. -/
private theorem Inv.withLaunch {s : System} (h : Inv site s) {l : Nat} {c : Launch}
    (hc : s.launches l = some c) (ho : c.phase ≠ .published) {phase : LaunchPhase}
    (hp : phase ≠ .published) {claim : Text → Option Party}
    (hi : ∀ name i, s.claim name = some (.install i) → claim name = some (.install i))
    (hl : ∀ name k, k ≠ l → s.claim name = some (.launch k) → claim name = some (.launch k))
    (hself : phase.admitting = true → claim c.cfg.name = some (.launch l)) :
    Inv site { s.withLaunch l c phase with claim := claim } where
  install := h.install
  installClaim i d hd hh := hi _ _ (h.installClaim i d hd hh)
  launchClaim k d hd ha := by
    obtain ⟨rfl, rfl⟩ | ⟨hk, hd⟩ := update_cases hd
    · exact hself ha
    · exact hl _ _ hk (h.launchClaim k d hd ha)
  log name k := by
    rw [show (s.withLaunch l c phase).log = s.log from rfl, h.log name k]
    change _ ↔ ∃ d, Function.update s.launches l _ k = some d ∧ _
    by_cases hk : k = l
    · subst hk
      rw [Function.update_self, hc]
      constructor
      · rintro ⟨d, hd, -, hpub⟩
        rw [Option.some_inj] at hd
        exact absurd (hd ▸ hpub) ho
      · rintro ⟨d, hd, -, hpub⟩
        rw [Option.some_inj] at hd
        subst hd
        exact absurd hpub hp
    · rw [Function.update_of_ne hk]
  record name k hk := by
    obtain ⟨d, hd, hr⟩ := h.record name k hk
    by_cases hkl : k = l
    · subst hkl
      rw [hc, Option.some_inj] at hd
      subst hd
      exact ⟨{ c with phase := phase }, Function.update_self _ _ _, hr⟩
    · exact ⟨d, (Function.update_of_ne hkl _ _).trans hd, hr⟩

/-- A publication. -/
private theorem Inv.publish {s : System} (h : Inv site s) {l : Nat} {c : Launch}
    (hc : s.launches l = some c) :
    Inv site
      { s.withLaunch l c .published with
        record := Function.update s.record c.cfg.name (some c.cfg.metadata)
        log := Function.update s.log c.cfg.name (s.log c.cfg.name ++ [l]) } where
  install := h.install
  installClaim := h.installClaim
  launchClaim k d hd ha := by
    obtain ⟨rfl, rfl⟩ | ⟨-, hd⟩ := update_cases hd
    · cases ha
    · exact h.launchClaim k d hd ha
  log name k := by
    have hlog := h.log name k
    change k ∈ Function.update s.log c.cfg.name _ name ↔
      ∃ d, Function.update s.launches l _ k = some d ∧ _
    by_cases hn : name = c.cfg.name
    · subst hn
      rw [Function.update_self, List.mem_append, List.mem_singleton, hlog]
      by_cases hk : k = l
      · subst hk
        rw [Function.update_self]
        exact ⟨fun _ ↦ ⟨_, rfl, rfl, rfl⟩, fun _ ↦ .inr rfl⟩
      · rw [Function.update_of_ne hk]
        exact ⟨fun hor ↦ hor.resolve_right hk, .inl⟩
    · rw [Function.update_of_ne hn, hlog]
      by_cases hk : k = l
      · subst hk
        rw [Function.update_self, hc]
        constructor
        · rintro ⟨d, hd, hname, -⟩
          rw [Option.some_inj] at hd
          subst hd
          exact absurd hname.symm hn
        · rintro ⟨d, hd, hname, -⟩
          rw [Option.some_inj] at hd
          subst hd
          exact absurd hname.symm hn
      · rw [Function.update_of_ne hk]
  record name k hk := by
    change (Function.update s.log c.cfg.name _ name).getLast? = some k at hk
    change ∃ d, Function.update s.launches l _ k = some d ∧
      Function.update s.record c.cfg.name _ name = some d.cfg.metadata
    by_cases hn : name = c.cfg.name
    · subst hn
      rw [Function.update_self, List.getLast?_concat, Option.some_inj] at hk
      subst hk
      exact ⟨_, Function.update_self _ _ _, Function.update_self _ _ _⟩
    · rw [Function.update_of_ne hn] at hk
      obtain ⟨d, hd, hr⟩ := h.record name k hk
      rw [Function.update_of_ne hn]
      by_cases hkl : k = l
      · subst hkl
        rw [hc, Option.some_inj] at hd
        subst hd
        exact ⟨_, Function.update_self _ _ _, hr⟩
      · exact ⟨d, (Function.update_of_ne hkl _ _).trans hd, hr⟩

/-- Every step keeps the invariant. -/
theorem Inv.step {s s' : System} (h : Inv site s) (hs : Step site s s') : Inv site s' := by
  have hg := hs.grows
  cases hs with
  | enroll identity hn =>
    exact h.of_installs hg rfl rfl rfl (fun _ _ hd ↦ .inl hd) h.installClaim fun _ _ hn ↦ hn
  | permissions failure =>
    exact h.of_installs hg rfl rfl rfl (fun _ _ hd ↦ .inl hd) h.installClaim fun _ _ hn ↦ hn
  | request i req hn =>
    refine h.of_installs hg rfl rfl rfl (fun j d hd ↦ ?_) (fun j d hd hh ↦ ?_) fun _ _ hn ↦ hn
    · obtain ⟨rfl, rfl⟩ | ⟨-, hd⟩ := update_cases hd
      · exact .inr (installOk_begin s.store req)
      · exact .inl hd
    · obtain ⟨rfl, rfl⟩ | ⟨-, hd⟩ := update_cases hd
      · unfold Request.begin at hh
        dsimp only at hh
        split at hh <;> cases hh
      · exact h.installClaim j d hd hh
  | lock i c identity hc hp free =>
    have hok := h.install i c hc
    rw [hp] at hok
    refine h.of_installs hg rfl rfl rfl (fun j d hd ↦ ?_) (fun j d hd hh ↦ ?_)
      fun _ _ hn ↦ update_of_free free hn
    · obtain ⟨rfl, rfl⟩ | ⟨-, hd⟩ := update_cases hd
      · exact .inr hok
      · exact .inl hd
    · obtain ⟨rfl, rfl⟩ | ⟨-, hd⟩ := update_cases hd
      · exact Function.update_self _ _ _
      · exact update_of_free free (h.installClaim j d hd hh)
  | busy i c identity hc hp taken =>
    have hok : InstallOk site s.store c.req (.refused busy) := trivial
    exact h.withInstall hc hg hok Bool.noConfusion
  | advance i c now answers hc hp sees =>
    exact h.withInstall hc hg (installOk_advance now answers (h.install i c hc)) fun _ ↦ hp
  | fail i c failure hc hp =>
    have hok : InstallOk site s.store c.req (.refused failure) := trivial
    exact h.withInstall hc hg hok Bool.noConfusion
  | start l cfg hn =>
    refine ⟨h.install, h.installClaim, fun k d hd ha ↦ ?_, fun name k ↦ ?_,
      fun name k hk ↦ ?_⟩
    · obtain ⟨rfl, rfl⟩ | ⟨-, hd⟩ := update_cases hd
      · cases ha
      · exact h.launchClaim k d hd ha
    · rw [h.log name k]
      change _ ↔ ∃ d, Function.update s.launches l _ k = some d ∧ _
      by_cases hk : k = l
      · subst hk
        rw [Function.update_self, hn]
        constructor
        · rintro ⟨d, hd, -⟩
          cases hd
        · rintro ⟨d, hd, -, hpub⟩
          rw [Option.some_inj] at hd
          subst hd
          cases hpub
      · rw [Function.update_of_ne hk]
    · obtain ⟨d, hd, hr⟩ := h.record name k hk
      refine ⟨d, (Function.update_of_ne ?_ _ _).trans hd, hr⟩
      rintro rfl
      rw [hn] at hd
      cases hd
  | claim l c hc hp free =>
    exact h.withLaunch hc (by simp [hp]) (by simp) (fun _ _ ↦ update_of_free free)
      (fun _ _ _ ↦ update_of_free free) fun _ ↦ Function.update_self _ _ _
  | check l c hc hp ok =>
    refine h.withLaunch hc (by simp [hp]) (by simp) (fun _ _ hn ↦ hn) (fun _ _ _ hn ↦ hn)
      fun _ ↦ h.launchClaim l c hc ?_
    rw [hp]
    rfl
  | stop l c hc hp =>
    exact h.withLaunch hc hp (by simp) (fun _ _ ↦ release_of_ne Party.noConfusion)
      (fun _ _ hk ↦ release_of_ne fun he ↦ hk (Party.launch.inj he)) Bool.noConfusion
  | publish l c hc hp => exact h.publish hc
  | finish l c hc hp =>
    refine ⟨h.install, fun i d hd hh ↦ ?_, fun k d hd ha ↦ ?_, h.log, h.record⟩
    · exact release_of_ne Party.noConfusion (h.installClaim i d hd hh)
    · refine release_of_ne (fun he ↦ ?_) (h.launchClaim k d hd ha)
      cases he
      have hd' : s.launches l = some d := hd
      rw [hc, Option.some_inj] at hd'
      subst hd'
      rw [hp] at ha
      cases ha

theorem Inv.steps {s s' : System} (h : Inv site s) (hs : Steps site s s') : Inv site s' := by
  induction hs with
  | refl => exact h
  | tail _ hs ih => exact ih.step hs

end PtySpec.Revocation
