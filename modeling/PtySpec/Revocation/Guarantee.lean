import PtySpec.Revocation.Fence

/-!
# What an acknowledgment guarantees

For every run of installs and launches: an acknowledged record stays, the same install is
answered with it again, every later check of its name and operation is refused, and the
occupancy that is returned shows every launch whose check had passed, but for the names whose
record reads as a temporary file.
-/

namespace PtySpec.Revocation

open Registry (Text Accepted join)
open Listing (Answers SessionInfo isTmpName listed_iff)

variable {site : Site}

/-! ### What is guaranteed -/

/-- An install has been acknowledged. -/
def Acked (s : System) (req : Request) (result : RevocationInstall) : Prop :=
  ∃ i, s.installs i = some ⟨req, .acked result⟩

/-- Two acknowledged installs for one name and operation agree. -/
def Agree (s : System) : Prop :=
  ∀ req req' : Request, ∀ result result' : RevocationInstall,
    Acked s req result → Acked s req' result' → req.name = req'.name →
      req.binding.operation = req'.binding.operation →
        req.binding = req'.binding ∧ req.intentDigest = req'.intentDigest ∧
          result.record = result'.record

/-- An acknowledged install that is made again finds its record. -/
def Repeats (site : Site) (s s' : System) : Prop :=
  ∀ req : Request, ∀ result : RevocationInstall, Acked s req result →
    ∀ identity : RootIdentity, identity.rootId = req.expectedRootId → ∀ now : Text,
      req.decide site s'.store identity now = .durable result.record true

/-- The checks of an acknowledged name and operation, through the binding or the tag, are
refused. -/
def Refuses (site : Site) (s s' : System) : Prop :=
  ∀ req : Request, ∀ result : RevocationInstall, Acked s req result →
    ∀ binding : Option PublicationBinding, ∀ tagOperation : Option Text,
      binding.map (·.operation) = some req.binding.operation ∨
          tagOperation = some req.binding.operation →
        s'.store.check site req.name binding tagOperation ≠ .ok ()

/-- The occupancy shows a name as its last launch published it. -/
def Shows (s : System) (name : Text) (occupancy : List SessionInfo) : Prop :=
  ∃ l c, (s.log name).getLast? = some l ∧ s.launches l = some c ∧
    ∃ e ∈ occupancy, e.name = name ∧ e.metadata = some c.cfg.metadata

/-- An install with the claim is acknowledged in its next step. -/
def Acknowledges (site : Site) (s : System) (req : Request) (result : RevocationInstall) :
    Prop :=
  ∃ i phase now answers, s.installs i = some ⟨req, phase⟩ ∧ phase.holding = true ∧
    Sees site s answers ∧ (req.advance site s.store now answers phase).2 = .acked result

/-- A launch of a name has passed its check, and has not ended without a publication. -/
def PassedBefore (s : System) (name : Text) : Prop :=
  ∃ l c, s.launches l = some c ∧ c.cfg.name = name ∧ c.phase.passed = true ∧
    c.phase ≠ .ended true

/-! ### The proofs -/

private theorem Inv.of_acked {s : System} (h : Inv site s) {req : Request}
    {result : RevocationInstall} (ha : Acked s req result) :
    Installed site s.store req result.record := by
  obtain ⟨i, hi⟩ := ha
  exact (h.install i _ hi).2

theorem Inv.agree {s : System} (h : Inv site s) : Agree s := by
  intro req req' result result' ha ha' hn ho
  have hi := h.of_acked ha
  have hi' := h.of_acked ha'
  have hr := hi.record
  rw [hn, ho, hi'.record, Option.some_inj, Except.ok.injEq] at hr
  exact ⟨hi.binding.symm.trans (hr ▸ hi'.binding), hi.intent.symm.trans (hr ▸ hi'.intent),
    hr.symm⟩

private theorem decide_of_installed {store : Store} {req : Request} {r : PublicationRevocation}
    (h : Installed site store req r) {identity : RootIdentity}
    (hi : identity.rootId = req.expectedRootId) (now : Text) :
    req.decide site store identity now = .durable r true := by
  unfold Request.decide
  rw [h.read identity hi]
  dsimp only
  rw [if_neg]
  rw [not_or, not_not, not_not]
  exact ⟨h.binding, h.intent⟩

/-- A store with a record never answers that there is none, whichever way it is asked. -/
private theorem read_ne_none {store : Store} {req : Request} {r : PublicationRevocation}
    (h : Installed site store req r) (managed : Bool) :
    store.read site req.name req.binding.operation managed ≠ .ok none := by
  intro hn
  unfold Store.read at hn
  obtain ⟨_, -, hn⟩ := bind_eq_ok hn
  obtain ⟨_, -, hn⟩ := bind_eq_ok hn
  rw [h.present] at hn
  cases hf : store.rootFailure with
  | some failure =>
    rw [hf] at hn
    cases managed <;> cases hn
  | none =>
    rw [hf] at hn
    have hread : (store.enrolled site >>= fun identity ↦
        store.readRecord site identity req.name req.binding.operation) = .ok none := by
      cases managed <;> exact hn
    obtain ⟨identity, -, hread⟩ := bind_eq_ok hread
    refine readRecord_ne_none ?_ hread
    rw [h.record]
    rfl

private theorem check_ne_ok {store : Store} {req : Request} {r : PublicationRevocation}
    (h : Installed site store req r) {binding : Option PublicationBinding}
    {tagOperation : Option Text}
    (ho : binding.map (·.operation) = some req.binding.operation ∨
      tagOperation = some req.binding.operation) :
    store.check site req.name binding tagOperation ≠ .ok () := by
  intro hc
  unfold Store.check at hc
  obtain ⟨_, -, hc⟩ := bind_eq_ok hc
  cases binding with
  | none =>
    obtain rfl := ho.resolve_left (Option.some_ne_none _).symm
    obtain ⟨_, -, hc⟩ := bind_eq_ok hc
    obtain ⟨found, hf, hc⟩ := bind_eq_ok hc
    cases found with
    | none => exact read_ne_none h _ hf
    | some r => cases hc
  | some b =>
    obtain ⟨_, -, hc⟩ := bind_eq_ok hc
    cases tagOperation with
    | none =>
      obtain ⟨found, -, hc⟩ := bind_eq_ok hc
      cases found <;> cases hc
    | some operation =>
      obtain ⟨_, -, hc⟩ := bind_eq_ok hc
      obtain ⟨found, hf, hc⟩ := bind_eq_ok hc
      cases found with
      | some r => cases hc
      | none =>
        change (if b.operation ≠ operation then _ else _) = _ at hc
        by_cases hb : b.operation = operation
        · subst hb
          have hop : b.operation = req.binding.operation := ho.elim Option.some.inj Option.some.inj
          have hread : store.read site req.name b.operation true = .ok none := hf
          rw [hop] at hread
          exact read_ne_none h _ hread
        · rw [if_pos hb] at hc
          cases hc

/-- No party but the install that has the claim of a name is in the middle of a launch. -/
private theorem Inv.published_of_passed {s : System} (h : Inv site s) {i : Nat} {c : Install}
    (hi : s.installs i = some c) (hh : c.phase.holding = true) {l : Nat} {d : Launch}
    (hl : s.launches l = some d) (hn : d.cfg.name = c.req.name) (hp : d.phase.passed = true)
    (he : d.phase ≠ .ended true) : d.phase = .published := by
  cases hd : d.phase with
  | published => rfl
  | ended passed =>
    rw [hd] at hp he
    cases hp
    exact absurd rfl he
  | checked =>
    have hclaim := h.launchClaim l d hl (by rw [hd]; rfl)
    rw [hn, h.installClaim i c hi hh] at hclaim
    cases hclaim
  | waiting =>
    rw [hd] at hp
    cases hp
  | claimed =>
    rw [hd] at hp
    cases hp

/-- The step that acknowledges an install is the observation. -/
private theorem observe_of_acked {store : Store} {req : Request} {now : Text}
    {answers : Answers} {phase : InstallPhase} {result : RevocationInstall}
    (hh : phase.holding = true)
    (ha : (req.advance site store now answers phase).2 = .acked result) :
    ∃ record already, phase = .durable record already ∧
      req.observe site answers record already = .acked result := by
  cases phase with
  | durable record already => exact ⟨record, already, rfl, ha⟩
  | locking | acked | refused => cases hh
  | pinned identity =>
    change req.decide site store identity now = _ at ha
    unfold Request.decide at ha
    split at ha
    · cases ha
    · split at ha <;> cases ha
    · cases ha
  | publishing | written => cases ha
  | published identity record =>
    change req.readBack site store identity record = _ at ha
    unfold Request.readBack at ha
    split at ha
    · cases ha
    · cases ha
    · split at ha <;> cases ha

/-- The occupancy of an acknowledgment is what the scan for the name lists. -/
private theorem occupancy_of_observe {answers : Answers} {req : Request}
    {record : PublicationRevocation} {already : Bool} {result : RevocationInstall}
    (h : req.observe site answers record already = .acked result) :
    result.occupancy =
      (Listing.scanSessions site.host answers true site.root (some req.name)).entries := by
  unfold Request.observe at h
  dsimp only at h
  split at h
  · cases h
  · cases h
    rfl

/-- The occupancy shows what was published, unless the name reads as a temporary file's. -/
theorem Inv.shows_iff {s : System} (h : Inv site s) {req : Request} {result : RevocationInstall}
    (ha : Acknowledges site s req result) (hp : PassedBefore s req.name) :
    Shows s req.name result.occupancy ↔ isTmpName (req.name ++ ".json".toList) = false := by
  obtain ⟨i, phase, now, answers, hi, hh, ⟨items, hdir, hsees⟩, hack⟩ := ha
  obtain ⟨record, already, rfl, hobs⟩ := observe_of_acked hh hack
  obtain ⟨l, c, hl, hn, hpassed, hended⟩ := hp
  have hacc : Accepted req.name := (h.install i _ hi).1
  have hpub := h.published_of_passed hi hh hl hn hpassed hended
  have hmem : l ∈ s.log req.name := (h.log _ l).mpr ⟨c, hl, hn, hpub⟩
  obtain ⟨last, hlast⟩ : ∃ k, (s.log req.name).getLast? = some k := by
    cases hk : (s.log req.name).getLast? with
    | some k => exact ⟨k, rfl⟩
    | none =>
      rw [List.getLast?_eq_none_iff.mp hk] at hmem
      cases hmem
  obtain ⟨d, hd, hrecord⟩ := h.record _ _ hlast
  obtain ⟨hitem, hmeta⟩ := hsees _ _ hrecord
  rw [← listed_iff hdir hacc hitem hmeta (.inr rfl), ← occupancy_of_observe hobs]
  constructor
  · rintro ⟨k, c', hk, hc', e, he, hname, hm⟩
    rw [hlast, Option.some_inj] at hk
    subst hk
    rw [hd, Option.some_inj] at hc'
    subst hc'
    exact ⟨e, he, hname, hm⟩
  · rintro ⟨e, he, hname, hm⟩
    exact ⟨last, d, hlast, hd, e, he, hname, hm⟩

/-! ### The guarantee -/

/-- In every run, the records stay, acknowledged installs agree, are found again and refuse
every later check; and an acknowledgment shows the launches that had passed their check exactly
when the name's record does not read as a temporary file. -/
theorem revocation_fence {s₀ s s' : System} (h : Initial s₀) (hs : Steps site s₀ s)
    (hs' : Steps site s s') :
    (∀ directory file r, s.store.record directory file = some r →
        s'.store.record directory file = some r) ∧
      Agree s ∧ Repeats site s s' ∧ Refuses site s s' ∧
        ∀ req result, Acknowledges site s req result → PassedBefore s req.name →
          (Shows s req.name result.occupancy ↔
            isTmpName (req.name ++ ".json".toList) = false) := by
  have hinv : Inv site s := h.inv.steps hs
  have hgrows := hs'.grows
  refine ⟨hgrows.1, hinv.agree, fun req result ha identity hi now ↦ ?_,
    fun req result ha binding tagOperation ho ↦ ?_, fun req result ↦ hinv.shows_iff⟩
  · exact decide_of_installed ((hinv.of_acked ha).grows hgrows) hi now
  · exact check_ne_ok ((hinv.of_acked ha).grows hgrows) ho

/-! ### A launch under the name of a temporary file -/

/-- A place where a digest is the text itself. -/
def plainSite : Site where
  hash := id
  uid := 0
  isTime := fun _ ↦ true
  debug := fun _ ↦ ""
  host := Listing.plainHost
  root := "/r".toList
  path := "/r".toList
  device := 0
  inode := 0

/-- An enrolled root without sessions. -/
def enrolledRoot : System where
  store :=
    { present := true
      rootFailure := none
      identity := some (.ok ⟨1, List.replicate 64 '0', "/r".toList, 0, 0⟩)
      record := fun _ _ ↦ none }
  claim := fun _ ↦ none
  record := fun _ ↦ none
  installs := fun _ ↦ none
  launches := fun _ ↦ none
  log := fun _ ↦ []

private def tmpRequest : Request where
  name := "a.tmp".toList
  binding := ⟨"op".toList, List.replicate 64 'a'⟩
  intentDigest := List.replicate 64 'b'
  expectedRootId := List.replicate 64 '0'

private def tmpConfig : DaemonConfig where
  name := "a.tmp".toList
  publicationBinding := none
  publicationRootId := none
  lifecycleTag := none
  operationTag := none
  metadata := (Metadata.SessionMetadata.fromMap []).get rfl

private theorem initial_enrolledRoot : Initial enrolledRoot :=
  ⟨fun _ ↦ rfl, fun _ ↦ rfl, fun _ ↦ rfl, fun _ ↦ rfl⟩

private theorem sees_tmp {s : System}
    (hr : ∀ name m, s.record name = some m → name = tmpConfig.name ∧ m = tmpConfig.metadata) :
    Sees plainSite s (Listing.oneRecord "a.tmp".toList) := by
  refine ⟨_, rfl, fun name m hm ↦ ?_⟩
  obtain ⟨rfl, rfl⟩ := hr name m hm
  exact ⟨List.mem_singleton_self _, fun _ ↦ rfl⟩

private theorem exists_advance {s : System} {req : Request} {phase : InstallPhase}
    (h : s.installs 0 = some ⟨req, phase⟩) (hh : phase.holding = true) {answers : Answers}
    (hsees : Sees site s answers) (now : Text) :
    ∃ s', Step site s s' ∧
      s'.installs 0 = some ⟨req, (req.advance site s.store now answers phase).2⟩ ∧
        s'.store = (req.advance site s.store now answers phase).1 ∧
          s'.launches = s.launches ∧ s'.record = s.record :=
  ⟨_, .advance 0 _ now answers h hh hsees, rfl, rfl, rfl, rfl⟩

/-- A launch publishes and an install for its name takes the claim. -/
private theorem exists_pinned : ∃ s, Steps plainSite enrolledRoot s ∧
    s.installs 0 = some ⟨tmpRequest, .pinned ⟨1, List.replicate 64 '0', "/r".toList, 0, 0⟩⟩ ∧
      s.store = enrolledRoot.store ∧ s.launches 0 = some ⟨tmpConfig, .published⟩ ∧
        ∀ name m, s.record name = some m → name = tmpConfig.name ∧ m = tmpConfig.metadata := by
  have start : Steps plainSite enrolledRoot _ := .single (.start 0 tmpConfig rfl)
  have claim := start.tail (.claim 0 ⟨tmpConfig, .waiting⟩ rfl rfl rfl)
  have check := claim.tail (.check 0 ⟨tmpConfig, .claimed⟩ rfl rfl rfl)
  have publish := check.tail (.publish 0 ⟨tmpConfig, .checked⟩ rfl rfl)
  have finish := publish.tail (.finish 0 ⟨tmpConfig, .published⟩ rfl rfl)
  have request := finish.tail (.request 0 tmpRequest rfl)
  have lock := request.tail (.lock 0 ⟨tmpRequest, tmpRequest.begin plainSite enrolledRoot.store⟩
    ⟨1, List.replicate 64 '0', "/r".toList, 0, 0⟩ rfl rfl rfl)
  refine ⟨_, lock, rfl, rfl, rfl, fun name m hm ↦ ?_⟩
  change Function.update (fun _ ↦ none) tmpConfig.name (some tmpConfig.metadata) name = _ at hm
  by_cases hn : name = tmpConfig.name
  · subst hn
    rw [Function.update_self, Option.some_inj] at hm
    exact ⟨rfl, hm.symm⟩
  · rw [Function.update_of_ne hn] at hm
    cases hm

/-- The install writes its record and reads it back. -/
private theorem exists_durable : ∃ s record,
    Steps plainSite enrolledRoot s ∧ s.installs 0 = some ⟨tmpRequest, .durable record false⟩ ∧
      s.launches 0 = some ⟨tmpConfig, .published⟩ ∧
        Sees plainSite s (Listing.oneRecord "a.tmp".toList) := by
  obtain ⟨s, hs, hi, hstore, hl, hr⟩ := exists_pinned
  obtain ⟨a, ha, hia, hsa, hla, hra⟩ := exists_advance hi rfl (sees_tmp hr) []
  rw [hstore] at hia hsa
  obtain ⟨b, hb, hib, hsb, hlb, hrb⟩ := exists_advance hia rfl (sees_tmp (hra ▸ hr)) []
  rw [hsa] at hib hsb
  obtain ⟨c, hc, hic, hsc, hlc, hrc⟩ := exists_advance hib rfl (sees_tmp (hrb ▸ hra ▸ hr)) []
  rw [hsb] at hic hsc
  obtain ⟨d, hd, hid, hsd, hld, hrd⟩ :=
    exists_advance hic rfl (sees_tmp (hrc ▸ hrb ▸ hra ▸ hr)) []
  rw [hsc] at hid
  exact ⟨d, _, (((hs.tail ha).tail hb).tail hc).tail hd, hid,
    by rw [hld, hlc, hlb, hla, hl], sees_tmp (hrd ▸ hrc ▸ hrb ▸ hra ▸ hr)⟩

private theorem passedBefore_tmp {s : System}
    (hl : s.launches 0 = some ⟨tmpConfig, .published⟩) : PassedBefore s tmpRequest.name :=
  ⟨0, _, hl, rfl, rfl, LaunchPhase.noConfusion⟩

/-- The guarantee where an install is about to be acknowledged. -/
theorem revocation_fence_tmp : ∃ s req result,
    Acknowledges plainSite s req result ∧ PassedBefore s req.name ∧ Agree s ∧
      Repeats plainSite s s ∧ Refuses plainSite s s ∧
        (Shows s req.name result.occupancy ↔
          isTmpName (req.name ++ ".json".toList) = false) := by
  obtain ⟨s, record, hs, hi, hl, hsees⟩ := exists_durable
  have ha : Acknowledges plainSite s tmpRequest ⟨record, [], false⟩ :=
    ⟨0, _, [], _, hi, rfl, hsees, rfl⟩
  have hp := passedBefore_tmp hl
  obtain ⟨-, hagree, hrepeats, hrefuses, hshows⟩ :=
    revocation_fence initial_enrolledRoot hs .refl
  exact ⟨s, _, _, ha, hp, hagree, hrepeats, hrefuses, hshows _ _ ha hp⟩

/-- An install is acknowledged with an occupancy that does not show the launch whose check had
passed before it, and which has published its record. -/
theorem published_launch_hidden : ∃ s req result,
    Initial enrolledRoot ∧ Steps plainSite enrolledRoot s ∧
      Acknowledges plainSite s req result ∧
        (∃ l c, s.launches l = some c ∧ c.cfg.name = req.name ∧ c.phase = .published) ∧
          result.occupancy = [] := by
  obtain ⟨s, record, hs, hi, hl, hsees⟩ := exists_durable
  exact ⟨s, tmpRequest, ⟨record, [], false⟩, initial_enrolledRoot, hs,
    ⟨0, _, [], _, hi, rfl, hsees, rfl⟩, ⟨0, _, hl, rfl, rfl⟩, rfl⟩

end PtySpec.Revocation
