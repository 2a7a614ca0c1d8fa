import AmpRack.ControlValues
import AmpRack.RackOrder

/-!
# What the sliders show

A slider starts from `control->val`, which the LV2 constructor never sets, and the plugin from
`*def`. From there on a slider that moves takes its control along, and one that stays where it is
announces nothing. The slider is a `double` and its control a `float`. So the sliders of a card agree
with its plugin exactly when they agree from the start and are only moved to values of a `float`.
-/

namespace AmpRack

open VectorEdits GuardedRun TextScan JsonText Plugin

/-- There is a slider for every control that is no atom port, and it shows what the plugin is
running with. -/
structure CardAgrees (ui : PluginUI) (p : Plugin) : Prop where
  slider : ∀ (k : ℕ) (c : PluginControl), p.pluginControls[k]? = some c → c.isAtom = false →
    ∃ s ∈ ui.sliders, s.control = k
  shows : ∀ s ∈ ui.sliders, ∀ c, p.pluginControls[s.control]? = some c → c.isAtom = false →
    c.defValue = some s.value

/-- What the slider of the control shows at first. -/
def PluginControl.shown (c : PluginControl) : ℚ := (Slider.new 0 c).value

/-- The slider stays where it is, or comes to a value that a `float` holds. -/
def Slider.Holds (s : Slider) (f : Floating) : Prop :=
  s.settle f = s.value ∨ BinaryFormat.binary32.round (s.settle f) = s.settle f

instance (s : Slider) (f : Floating) : Decidable (s.Holds f) := inferInstanceAs (Decidable (_ ∨ _))

example : ¬ (Slider.mk 0 0 0 1).Holds (.number (1 / 10)) ∧
    (Slider.mk 0 0 0 1).Holds (readFloat "0.1".toList) := by decide +kernel

namespace Rack

def SlidersAgree (r : Rack) : Prop := r.EachCard CardAgrees

end Rack

section Holds

variable {p q : Plugin} {s : Slider} {sliders : List Slider} {f : Floating} {values : List Floating}
  {n : ℕ}

/-- What a preset is read as is a `float`, and with bounds that are, a slider comes to none else. -/
theorem Slider.holds_readFloat (hmin : BinaryFormat.binary32.round s.min = s.min)
    (hmax : BinaryFormat.binary32.round s.max = s.max) (text : Text) : s.Holds (readFloat text) := by
  have hupper : BinaryFormat.binary32.round (Max.max s.min s.max) = Max.max s.min s.max := by
    rcases max_choice s.min s.max with h | h <;> rw [h]
    · exact hmin
    · exact hmax
  refine .inr ?_
  cases hread : readFloat text with
  | number v =>
    simp only [Slider.settle, Slider.clamp]
    split_ifs
    · exact hupper
    · exact hmin
    · exact round_of_readFloat hread
  | infinite negative =>
    cases negative
    · exact hupper
    · exact hmin
  | nan => exact hupper

end Holds

section Sliders

variable {p : Plugin} {s : Slider}

theorem nodup_slidersFrom (cs : List PluginControl) (n : ℕ) :
    ((slidersFrom cs n).map (·.control)).Nodup := by
  induction cs generalizing n with
  | nil => exact List.nodup_nil
  | cons c cs ih =>
    by_cases hc : c.type = .atom
    · rw [slidersFrom_cons_skip hc]
      exact ih (n + 1)
    · rw [slidersFrom_cons hc, List.map_cons, List.nodup_cons]
      refine ⟨fun hmem => ?_, ih (n + 1)⟩
      obtain ⟨s, hs, hcontrol⟩ := List.mem_map.mp hmem
      have hle := le_of_mem_slidersFrom hs
      have hn : s.control = n := hcontrol
      omega

/-- A slider and its control are set to the same value, and no other of either changes. -/
theorem CardAgrees.set {ui : PluginUI} {i : ℕ} {u v : ℚ} (h : CardAgrees ui p)
    (hn : (ui.sliders.map (·.control)).Nodup) (hs : ui.sliders[i]? = some s)
    (huv : ∀ c, p.pluginControls[s.control]? = some c → c.isAtom = false → u = v) :
    CardAgrees (ui.setSlider i v) (p.setDef s.control u) := by
  have hcontrol {k : ℕ} {c : PluginControl} (hc : (p.setDef s.control u).pluginControls[k]? = some c) :
      ∃ c₀, p.pluginControls[k]? = some c₀ ∧ c₀.isAtom = c.isAtom ∧
        c.defValue = if s.control = k then some u else c₀.defValue := by
    rw [setDef, List.getElem?_modify] at hc
    obtain ⟨c₀, hc₀, rfl⟩ := Option.map_eq_some_iff.mp hc
    refine ⟨c₀, hc₀, ?_, ?_⟩ <;> split_ifs <;> rfl
  have hslider {t : Slider} (ht : t ∈ (ui.setSlider i v).sliders) :
      ∃ t₀ ∈ ui.sliders, t.control = t₀.control ∧
        t.value = if s.control = t₀.control then v else t₀.value := by
    obtain ⟨j, hj⟩ := List.mem_iff_getElem?.mp ht
    rw [PluginUI.setSlider, List.getElem?_modify] at hj
    obtain ⟨t₀, ht₀, rfl⟩ := Option.map_eq_some_iff.mp hj
    have hij : i = j ↔ s.control = t₀.control := by
      constructor
      · rintro rfl
        rw [hs, Option.some.injEq] at ht₀
        rw [ht₀]
      · intro hc
        have hlt : i < (ui.sliders.map (·.control)).length := by
          rw [List.length_map]
          exact (List.getElem?_eq_some_iff.mp hs).1
        apply getElem?_inj_of_nodup hn hlt
        rw [List.getElem?_map, List.getElem?_map, hs, ht₀, Option.map_some, Option.map_some, hc]
    refine ⟨t₀, List.mem_of_getElem? ht₀, ?_, ?_⟩
    · split_ifs <;> rfl
    · simp only [hij]
      split_ifs <;> rfl
  refine ⟨fun k c hc hatom => ?_, fun t ht c hc hatom => ?_⟩
  · obtain ⟨c₀, hc₀, hatom₀, -⟩ := hcontrol hc
    obtain ⟨t, ht, htk⟩ := h.slider k c₀ hc₀ (hatom₀.trans hatom)
    have hmem : t.control ∈ (ui.setSlider i v).sliders.map (·.control) := by
      rw [(ui.sameCard_setSlider i v).controls]
      exact List.mem_map_of_mem ht
    obtain ⟨t', ht', htt'⟩ := List.mem_map.mp hmem
    exact ⟨t', ht', htt'.trans htk⟩
  · obtain ⟨t₀, ht₀, hcontrol₀, hvalue⟩ := hslider ht
    obtain ⟨c₀, hc₀, hatom₀, hdef⟩ := hcontrol hc
    rw [hcontrol₀] at hc₀
    rw [hdef, hvalue, hcontrol₀]
    split_ifs with heq
    · rw [huv c₀ (by rw [heq]; exact hc₀) (hatom₀.trans hatom)]
    · exact h.shows t₀ ht₀ c₀ hc₀ (hatom₀.trans hatom)

end Sliders

namespace Rack

section Set

variable {realized : Bool} {r r' : Rack} {card i : ℕ} {f : Floating}

variable {k : ℕ} {ui : PluginUI} {p : Plugin}

end Set

/-- In a run without deletions and moves, every card stands where it was put. -/
structure Sliding (r : Rack) : Prop where
  loading : Loading (r, r.chain.length)
  cards : r.listBox = List.range r.uiv.length
  distinct : ∀ ui ∈ r.uiv, (ui.sliders.map (·.control)).Nodup
  agree : r.SlidersAgree

section Run

variable {w : Installation} {realized : Bool} {r r' : Rack} {card i : ℕ} {f : Floating}
  {requested : Text}

theorem Sliding.getIndex (h : Sliding r) {ui : PluginUI} {s : Slider}
    (hui : r.uiv[card]? = some ui) (hs : ui.sliders[i]? = some s) : ui.getIndex realized = card := by
  have hlt : card < r.uiv.length := (List.getElem?_eq_some_iff.mp hui).1
  have hc : r.listBox[card]? = some card := by
    rw [h.cards, List.getElem?_range hlt]
  obtain ⟨hindex, -, -, hname⟩ := h.loading.index card card ui hc hui
  have hne : ui.sliders ≠ [] := List.ne_nil_of_mem (List.mem_of_getElem? hs)
  cases realized with
  | false => exact hindex
  | true =>
    simp only [PluginUI.getIndex, Bool.not_true, Bool.false_eq_true, if_false, hname hne]
    omega

theorem Sliding.of_touched (h : Sliding r) (ht : Touched r r') (hagree : r'.SlidersAgree) :
    Sliding r' where
  loading := by
    have hlen : r'.chain.length = r.chain.length := ht.engine.chain.length_eq.symm
    rw [hlen]
    exact h.loading.of_touched ht
  cards := by
    rw [ht.listBox, ← ht.uiv.length_eq]
    exact h.cards
  distinct := by
    intro ui' hui'
    obtain ⟨k, hk⟩ := List.mem_iff_getElem?.mp hui'
    have hlt : k < r.uiv.length := by
      rw [ht.uiv.length_eq]
      exact (List.getElem?_eq_some_iff.mp hk).1
    obtain ⟨ui₁, hui₁, hsame⟩ := ht.sameCard (List.getElem?_eq_getElem hlt)
    rw [hk, Option.some.injEq] at hui₁
    rw [hui₁, hsame.controls]
    exact h.distinct _ (List.getElem_mem hlt)
  agree := hagree

theorem Sliding.of_added {entry : CatalogueEntry} {p : Plugin} (h : Sliding r)
    (ha : Added w r requested entry p r') (hroom : (switchedOn r.chain).length < MAX_PLUGINS)
    (hagree : r'.SlidersAgree) : Sliding r' where
  loading := by
    have hlen : r'.chain.length = r.chain.length + 1 := by
      rw [ha.chain, List.length_append, List.length_singleton]
    rw [hlen]
    rw [h.loading.length_switchedOn] at hroom
    exact h.loading.of_added hroom ha
  cards := by
    rw [ha.listBox, ha.uiv, List.length_append, List.length_singleton, List.range_succ, h.cards]
  distinct := by
    rw [ha.uiv]
    intro ui hui
    rcases List.mem_append.mp hui with hui | hui
    · exact h.distinct ui hui
    · rw [List.mem_singleton.mp hui]
      exact nodup_slidersFrom p.pluginControls 0
  agree := hagree

/-- Trying a plugin that lilv cannot load only counts an object. -/
theorem Sliding.of_failed (h : Sliding r) :
    Sliding { r with engine := { r.engine with nextId := r.engine.nextId + 1 } } :=
  ⟨h.loading.of_failed, h.cards, h.distinct, h.agree⟩

end Run

end Rack

end AmpRack
