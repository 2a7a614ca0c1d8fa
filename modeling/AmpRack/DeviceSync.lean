import AmpRack.MapGossip
import AmpRack.SyncStores
import AmpRack.VectorEdits

/-!
# Presets on many devices

Every device that synchronises with another sends the presets it has at that moment, and imports what
comes from the other. The messages of several connections may pass one another in any order, be
imported more than once, or never. A device has the presets of the devices whose messages have come
to it, directly or through others. Two devices that have different presets of one name swap them.
-/

namespace AmpRack

open JsonText DotPath MapExchange MapGossip VectorEdits

/-- Presets whose names are written as they are. -/
structure PlainPresets extends UserPresets where
  unescaped : ∀ name ∈ files, name.all needsNoEscape = true

def PlainPresets.lookup (u : PlainPresets) (name : Text) : Option Json := u.files.lookup name

variable {ι : Type*} [DecidableEq ι]

/-- The directories of the devices, and the collections that were sent. -/
structure SyncNetwork (ι : Type*) where
  stores : ι → Store
  wires : List (Option Json) := []

namespace SyncNetwork

def start (devices : ι → PlainPresets) : SyncNetwork ι := { stores := fun i => (devices i).files }

/-- `get_all_user_presets` for a message, which is empty when there are none, and
`import_presets_from_json` of a message that has come through. -/
def step (n : SyncNetwork ι) : Event ι → SyncNetwork ι
  | .send i => { n with wires := n.wires ++ [delivered (n.stores i).getAllUserPresets] }
  | .receive wire i =>
    match n.wires[wire]? with
    | none => n
    | some message =>
      { n with stores := Function.update n.stores i ((n.stores i).importMessage message) }

def run (n : SyncNetwork ι) (events : List (Event ι)) : SyncNetwork ι := events.foldl step n

end SyncNetwork

section Import

theorem overlay_of_fixed {K V : Type*} {e : K → K} (he : Function.Injective e)
    {old new : K → Option V} (hfix : ∀ k, (new k).isSome → e k = k) (k : K) :
    overlay e old new k = (new k).or (old k) := by
  by_cases hk : ∃ k', e k' = k
  · obtain ⟨k', rfl⟩ := hk
    rw [overlay_apply he]
    by_cases hself : e k' = k'
    · rw [hself]
    · have hnone : new k' = none := Option.not_isSome_iff_eq_none.mp fun h => hself (hfix k' h)
      have hnone' : new (e k') = none :=
        Option.not_isSome_iff_eq_none.mp fun h => hself (he (hfix (e k') h))
      rw [hnone, hnone']
  · have hne : ∀ k', e k' ≠ k := fun k' h => hk ⟨k', h⟩
    have hnone : new k = none := Option.not_isSome_iff_eq_none.mp fun h => hne k (hfix k h)
    rw [overlay_of_forall_ne hne, hnone, Option.none_or]

namespace PlainPresets

theorem isSome_lookup (u : PlainPresets) (name : Text) :
    (u.lookup name).isSome ↔ name ∈ u.files := AList.lookup_isSome

/-- What a message writes. -/
theorem lookup_importMessage (u v : PlainPresets) (name : Text) :
    (u.files.importMessage (delivered v.files.getAllUserPresets)).lookup name =
      (v.lookup name).or (u.lookup name) := by
  have hfix (k : Text) (hk : (v.lookup k).isSome) : escape k = k :=
    escape_eq_self_iff.mpr (v.unescaped k ((v.isSome_lookup k).mp hk))
  have hover := v.toUserPresets.lookup_importMessage u.files
  exact (congrFun hover name).trans (overlay_of_fixed escape_injective hfix name)

/-- The presets of a device when it has imported a message. -/
def receive (u v : PlainPresets) : PlainPresets where
  files := u.files.importMessage (delivered v.files.getAllUserPresets)
  named name j h := by
    rw [lookup_importMessage] at h
    rcases Option.or_eq_some_iff.mp h with h | ⟨-, h⟩
    · exact v.named name j h
    · exact u.named name j h
  plain name h := by
    rw [← AList.lookup_isSome, lookup_importMessage, Option.isSome_or, Bool.or_eq_true] at h
    rcases h with h | h
    · exact v.plain name ((v.isSome_lookup name).mp h)
    · exact u.plain name ((u.isSome_lookup name).mp h)
  unescaped name h := by
    rw [← AList.lookup_isSome, lookup_importMessage, Option.isSome_or, Bool.or_eq_true] at h
    rcases h with h | h
    · exact v.unescaped name ((v.isSome_lookup name).mp h)
    · exact u.unescaped name ((u.isSome_lookup name).mp h)

theorem lookup_receive (u v : PlainPresets) :
    (u.receive v).lookup = fun name => (v.lookup name).or (u.lookup name) :=
  funext (u.lookup_importMessage v)

end PlainPresets

end Import

namespace SyncNetwork

variable {devices : ι → PlainPresets} {n : SyncNetwork ι} {f : Flow ι}

/-- The presets that a device has, or that a message is made of, are those of the devices in `s`. -/
def Holds (devices : ι → PlainPresets) (s : Set ι) (u : PlainPresets) : Prop :=
  Collects (fun d => (devices d).lookup) s u.lookup

structure Follows (devices : ι → PlainPresets) (n : SyncNetwork ι) (f : Flow ι) : Prop where
  stores : ∀ i, ∃ u : PlainPresets, n.stores i = u.files ∧ Holds devices (f.known i) u
  length : n.wires.length = f.wires.length
  wires : ∀ (k : ℕ) (message : Option Json) (s : Set ι), n.wires[k]? = some message →
    f.wires[k]? = some s →
      ∃ u : PlainPresets, message = delivered u.files.getAllUserPresets ∧ Holds devices s u

omit [DecidableEq ι] in
theorem follows_start (devices : ι → PlainPresets) : Follows devices (start devices) .start where
  stores i := ⟨devices i, rfl, collects_start _ i⟩
  length := rfl
  wires k message s h := (by cases h)

theorem Follows.send (h : Follows devices n f) (i : ι) :
    Follows devices (n.step (.send i)) (f.step (.send i)) where
  stores := h.stores
  length := by
    change (n.wires ++ [_]).length = (f.wires ++ [_]).length
    rw [List.length_append, List.length_append, h.length]
    rfl
  wires k message s hmessage hs := by
    obtain ⟨hlt, hmessage⟩ | ⟨hk, hmessage⟩ := getElem?_concat_cases hmessage
    · obtain ⟨-, hs⟩ | ⟨hk, -⟩ := getElem?_concat_cases hs
      · exact h.wires k message s hmessage hs
      · exact absurd hk (h.length ▸ hlt).ne
    · obtain ⟨hlt, -⟩ | ⟨-, hs⟩ := getElem?_concat_cases hs
      · exact absurd hk (h.length ▸ hlt).ne
      · obtain ⟨u, hu, hcollects⟩ := h.stores i
        rw [← hmessage, ← hs, hu]
        exact ⟨u, rfl, hcollects⟩

theorem Follows.receive (h : Follows devices n f) (k : ℕ) (i : ι) :
    Follows devices (n.step (.receive k i)) (f.step (.receive k i)) := by
  rw [step, Flow.step]
  cases hmessage : n.wires[k]? with
  | none =>
    have hnone : f.wires[k]? = none := by
      rw [List.getElem?_eq_none_iff, ← h.length]
      exact List.getElem?_eq_none_iff.mp hmessage
    rw [hnone]
    exact h
  | some message =>
    obtain ⟨hlt, -⟩ := List.getElem?_eq_some_iff.mp hmessage
    obtain ⟨s, hs⟩ : ∃ s, f.wires[k]? = some s := ⟨_, List.getElem?_eq_getElem (h.length ▸ hlt)⟩
    rw [hs]
    refine ⟨fun d => ?_, h.length, h.wires⟩
    obtain ⟨v, rfl, hv⟩ := h.wires k message s hmessage hs
    by_cases hd : d = i
    · subst hd
      obtain ⟨u, hu, hcollects⟩ := h.stores d
      refine ⟨u.receive v, ?_, ?_⟩
      · simp only [Function.update_self, hu]
        rfl
      · simp only [Function.update_self]
        rw [Holds, u.lookup_receive v]
        exact Collects.or hcollects hv
    · simp only [Function.update_of_ne hd]
      exact h.stores d

theorem Follows.run (h : Follows devices n f) (events : List (Event ι)) :
    Follows devices (n.run events) (f.run events) := by
  induction events generalizing n f with
  | nil => exact h
  | cons event events ih =>
    cases event with
    | send i => exact ih (h.send i)
    | receive k i => exact ih (h.receive k i)

/-- However the messages go: a device has a preset of exactly the names that the devices whose
messages have come to it started with, and each is the preset of one of them. Where no two devices
started with different presets of a name, it has exactly theirs. -/
theorem run_spreads (devices : ι → PlainPresets) (events : List (Event ι)) (i : ι) (name : Text) :
    let store := ((start devices).run events).stores i
    let known := (Flow.start.run events).known i
    (name ∈ store ↔ ∃ d ∈ known, name ∈ (devices d).files) ∧
      (∀ j, store.lookup name = some j → ∃ d ∈ known, (devices d).files.lookup name = some j) ∧
      ((∀ d d' j j', (devices d).files.lookup name = some j →
          (devices d').files.lookup name = some j' → j = j') →
        ∀ j, store.lookup name = some j ↔ ∃ d ∈ known, (devices d).files.lookup name = some j) := by
  obtain ⟨u, hu, hholds⟩ := ((follows_start devices).run events).stores i
  have hnames : name ∈ u.files ↔
      ∃ d ∈ (Flow.start.run events).known i, name ∈ (devices d).files := by
    rw [← u.isSome_lookup]
    exact hholds.isSome_iff.trans
      (exists_congr fun d => and_congr_right fun _ => (devices d).isSome_lookup name)
  intro store known
  have hstore : store = u.files := hu
  rw [hstore]
  refine ⟨hnames, fun j hj => hholds.origin name j hj, fun hone j => ⟨fun hj =>
    hholds.origin name j hj, ?_⟩⟩
  rintro ⟨d, hd, hj⟩
  have hsome : (u.lookup name).isSome := hholds.keeps d hd name (by
    rw [PlainPresets.lookup, hj]
    rfl)
  obtain ⟨j', hj'⟩ := Option.isSome_iff_exists.mp hsome
  obtain ⟨d', -, hd'⟩ := hholds.origin name j' hj'
  rw [hone d d' j j' hj hd']
  exact hj'

section Exchanges

/-- `sync_send` on the one device to the server of the other, while nothing else goes on. -/
def synchronise (stores : ι → Store) (pair : ι × ι) : ι → Store :=
  let after := exchange (stores pair.1) (stores pair.2)
  Function.update (Function.update stores pair.2 after.2) pair.1 after.1

theorem step_receive {k : ℕ} {message : Option Json} (h : n.wires[k]? = some message) (i : ι) :
    n.step (.receive k i) = { n with
      stores := Function.update n.stores i ((n.stores i).importMessage message) } := by
  rw [step, h]

/-- Both collections are taken before one of them is imported. -/
theorem run_exchange (n : SyncNetwork ι) {c s : ι} (h : c ≠ s) :
    (n.run [.send c, .send s, .receive n.wires.length s,
      .receive (n.wires.length + 1) c]).stores = synchronise n.stores (c, s) := by
  let request := delivered (n.stores c).getAllUserPresets
  let response := delivered (n.stores s).getAllUserPresets
  let sent : SyncNetwork ι := { n with wires := n.wires ++ [request] ++ [response] }
  let imported := Function.update n.stores s ((n.stores s).importMessage request)
  have hrequest : sent.wires[n.wires.length]? = some request := by
    simp [sent]
  have hresponse : sent.wires[n.wires.length + 1]? = some response := by
    simp [sent]
  have hserver : sent.step (.receive n.wires.length s) = { sent with stores := imported } :=
    step_receive hrequest s
  have hclient : step { sent with stores := imported } (.receive (n.wires.length + 1) c) =
      { sent with
        stores := Function.update imported c ((imported c).importMessage response) } :=
    step_receive (n := { sent with stores := imported }) hresponse c
  have hsame : imported c = n.stores c := Function.update_of_ne h _ _
  change ((sent.step (.receive n.wires.length s)).step (.receive (n.wires.length + 1) c)).stores = _
  rw [hserver, hclient, hsame]
  rfl

variable {stores : ι → Store} {u : ι → PlainPresets}

theorem synchronise_eq (h : ∀ i, stores i = (u i).files) (c s : ι) :
    ∃ u' : ι → PlainPresets, (∀ i, synchronise stores (c, s) i = (u' i).files) ∧
      ∀ i, (u' i).lookup = fun name => swap (fun i => (u i).lookup name) c s i := by
  refine ⟨Function.update (Function.update u s ((u s).receive (u c))) c ((u c).receive (u s)),
    fun i => ?_, fun i => ?_⟩
  · rw [synchronise, exchange]
    by_cases hc : i = c
    · subst hc
      simp only [Function.update_self, h]
      rfl
    · simp only [Function.update_of_ne hc]
      by_cases hs : i = s
      · subst hs
        simp only [Function.update_self, h]
        rfl
      · simp only [Function.update_of_ne hs]
        exact h i
  · by_cases hc : i = c
    · subst hc
      simp only [swap, Function.update_self]
      exact (u i).lookup_receive (u s)
    · simp only [swap, Function.update_of_ne hc]
      by_cases hs : i = s
      · subst hs
        simp only [Function.update_self]
        exact (u i).lookup_receive (u c)
      · simp only [Function.update_of_ne hs]

/-- The presets that the devices have between them stay the same, and each device has the names that
it has heard of. -/
structure Keeps (devices : ι → PlainPresets) (known : ι → Set ι) (u : ι → PlainPresets) : Prop where
  same : ∀ name j, (∃ i, (u i).lookup name = some j) ↔ ∃ i, (devices i).lookup name = some j
  holds : ∀ i, Holds devices (known i) (u i)

theorem Keeps.synchronise {known : ι → Set ι} (hkeeps : Keeps devices known u)
    (h : ∀ i, stores i = (u i).files) (pairs : List (ι × ι)) :
    ∃ u' : ι → PlainPresets, (∀ i, pairs.foldl synchronise stores i = (u' i).files) ∧
      Keeps devices (pairs.foldl (fun known pair => meet known pair.1 pair.2) known) u' := by
  induction pairs generalizing stores u known with
  | nil => exact ⟨u, h, hkeeps⟩
  | cons pair pairs ih =>
    obtain ⟨c, s⟩ := pair
    obtain ⟨u', hstores, hlookup⟩ := synchronise_eq h c s
    refine ih ⟨fun name j => ?_, fun i => ?_⟩ hstores
    · simp only [hlookup]
      exact exists_swap_iff.trans (hkeeps.same name j)
    · rw [Holds, hlookup i]
      exact collects_swap hkeeps.holds c s i

/-- However often two of the devices synchronise, one pair after the other: of every name the devices
have between them the presets that they had. So they all have the same presets in the end exactly when
no name had two and everyone has heard, directly or not, from a device that had it. -/
theorem agree_after_iff (devices : ι → PlainPresets) (pairs : List (ι × ι)) :
    let after := pairs.foldl synchronise fun i => (devices i).files
    let known := pairs.foldl (fun known pair => meet known pair.1 pair.2) fun i => {i}
    (∀ name j, (∃ i, (after i).lookup name = some j) ↔
        ∃ i, (devices i).files.lookup name = some j) ∧
      ((∀ i i' name, (after i).lookup name = (after i').lookup name) ↔
        (∀ name i i' j j', (devices i).files.lookup name = some j →
          (devices i').files.lookup name = some j' → j = j') ∧
        ∀ name, (∃ i, name ∈ (devices i).files) → ∀ i, ∃ d ∈ known i, name ∈ (devices d).files) := by
  intro after known
  have hstart : Keeps devices (fun i => {i}) devices :=
    ⟨fun _ _ => .rfl, fun i => collects_start _ i⟩
  obtain ⟨u, hu, hsame, hholds⟩ := hstart.synchronise (fun _ => rfl) pairs
  have hafter (i : ι) : after i = (u i).files := hu i
  have hmem (i : ι) (name : Text) :
      ((u i).lookup name).isSome ↔ ∃ d ∈ known i, name ∈ (devices d).files :=
    (hholds i).isSome_iff.trans
      (exists_congr fun d => and_congr_right fun _ => (devices d).isSome_lookup name)
  simp only [hafter]
  refine ⟨hsame, fun hagree => ⟨fun name i i' j j' hj hj' => ?_, fun name hname i => ?_⟩, ?_⟩
  · obtain ⟨d, hd⟩ := (hsame name j).mpr ⟨i, hj⟩
    obtain ⟨d', hd'⟩ := (hsame name j').mpr ⟨i', hj'⟩
    have heq : (u d).lookup name = (u d').lookup name := hagree d d' name
    rw [hd, hd'] at heq
    exact Option.some.inj heq
  · obtain ⟨d, hd⟩ := hname
    obtain ⟨j, hj⟩ := Option.isSome_iff_exists.mp (((devices d).isSome_lookup name).mpr hd)
    obtain ⟨d', hd'⟩ := (hsame name j).mpr ⟨d, hj⟩
    have heq : (u i).lookup name = (u d').lookup name := hagree i d' name
    apply (hmem i name).mp
    rw [heq, hd']
    rfl
  · rintro ⟨hone, hreached⟩ i i' name
    change (u i).lookup name = (u i').lookup name
    by_cases hname : ∃ d, name ∈ (devices d).files
    · obtain ⟨j, hj⟩ := Option.isSome_iff_exists.mp ((hmem i name).mpr (hreached name hname i))
      obtain ⟨j', hj'⟩ := Option.isSome_iff_exists.mp ((hmem i' name).mpr (hreached name hname i'))
      obtain ⟨d, hd⟩ := (hsame name j).mp ⟨i, hj⟩
      obtain ⟨d', hd'⟩ := (hsame name j').mp ⟨i', hj'⟩
      rw [hj, hj', hone name d d' j j' hd hd']
    · have hnone (i : ι) : (u i).lookup name = none := by
        apply Option.not_isSome_iff_eq_none.mp
        intro hsome
        obtain ⟨d, -, hd⟩ := (hmem i name).mp hsome
        exact hname ⟨d, hd⟩
      rw [hnone i, hnone i']

end Exchanges

end SyncNetwork

end AmpRack
