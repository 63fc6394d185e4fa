import Mathlib

-- Strict weak orderings of the elements of a set, and cascades of comparisons.
structure StrictWeak {α : Type} (S : α → Prop) (lt : α → α → Prop) : Prop where
  irrefl : ∀ a, S a → ¬lt a a
  trans  : ∀ a b c, S a → S b → S c → lt a b → lt b c → lt a c
  incomp : ∀ a b c, S a → S b → S c → ¬lt a b → ¬lt b a → ¬lt b c → ¬lt c b → ¬lt a c ∧ ¬lt c a

namespace StrictWeak

variable {α β γ : Type} {S T : α → Prop} {lt lt' rest : α → α → Prop} {a b c : α}

theorem asymm (h : StrictWeak S lt) (ha : S a) (hb : S b) (hab : lt a b) : ¬lt b a :=
  fun hba => h.irrefl a ha (h.trans a b a ha hb ha hab hba)

-- What is before another element is before or after any third one.
theorem split (h : StrictWeak S lt) (ha : S a) (hb : S b) (hc : S c) (hac : lt a c) : lt a b ∨ lt b c := by
  by_contra hn
  have ⟨hab, hbc⟩ := not_or.mp hn
  by_cases hba : lt b a
  case pos => exact hbc (h.trans b a c hb ha hc hba hac)
  case neg =>
    by_cases hcb : lt c b
    case pos => exact hab (h.trans a c b ha hc hb hac hcb)
    case neg => exact (h.incomp a b c ha hb hc hab hba hbc hcb).1 hac

theorem of_split (hasymm : ∀ a b, S a → S b → lt a b → ¬lt b a)
    (hsplit : ∀ a b c, S a → S b → S c → lt a c → lt a b ∨ lt b c) : StrictWeak S lt where
  irrefl a ha haa := hasymm a a ha ha haa haa
  trans a b c ha hb hc hab hbc := by
    rcases hsplit a c b ha hc hb hab with hac | hcb
    · exact hac
    · exact absurd hbc (hasymm c b hc hb hcb)
  incomp a b c ha hb hc hab hba hbc hcb := by
    constructor
    · exact fun hac => (hsplit a b c ha hb hc hac).elim hab hbc
    · exact fun hca => (hsplit c b a hc hb ha hca).elim hcb hba

theorem mono (h : StrictWeak S lt) (hT : ∀ a, T a → S a) : StrictWeak T lt where
  irrefl a ha := h.irrefl a (hT a ha)
  trans a b c ha hb hc := h.trans a b c (hT a ha) (hT b hb) (hT c hc)
  incomp a b c ha hb hc := h.incomp a b c (hT a ha) (hT b hb) (hT c hc)

theorem congr (h : ∀ a b, S a → S b → (lt a b ↔ lt' a b)) : StrictWeak S lt ↔ StrictWeak S lt' := by
  have hcongr : ∀ {lt lt' : α → α → Prop}, (∀ a b, S a → S b → (lt a b ↔ lt' a b)) → StrictWeak S lt →
      StrictWeak S lt' := by
    intro lt lt' h hlt
    refine of_split (fun a b ha hb hab hba => ?_) fun a b c ha hb hc hac => ?_
    · exact hlt.asymm ha hb ((h a b ha hb).mpr hab) ((h b a hb ha).mpr hba)
    · exact (hlt.split ha hb hc ((h a c ha hc).mpr hac)).imp (h a b ha hb).mp (h b c hb hc).mp
  exact ⟨hcongr h, hcongr fun a b ha hb => (h a b ha hb).symm⟩

theorem of_mem (h : ∀ x, S x → StrictWeak S lt) : StrictWeak S lt where
  irrefl a ha := (h a ha).irrefl a ha
  trans a b c ha := (h a ha).trans a b c ha
  incomp a b c ha := (h a ha).incomp a b c ha

theorem of_key [LinearOrder β] (f : α → β) (h : ∀ a b, S a → S b → (lt a b ↔ f a < f b)) : StrictWeak S lt := by
  refine (congr h).mpr (of_split (fun a b _ _ hab => lt_asymm hab) fun a b c _ _ _ hac => ?_)
  exact (lt_or_ge (f a) (f b)).imp_right fun hba => lt_of_le_of_lt hba hac

-- Elements of different classes are compared by their keys, the others by what comes next.
def ThenBy [LinearOrder β] (d : α → γ) (k : α → β) (rest : α → α → Prop) (a b : α) : Prop :=
  d a = d b ∧ rest a b ∨ d a ≠ d b ∧ k a < k b

-- No element of another class has a key between those of two elements of one class that are ordered
-- against their keys.
def Apart [LinearOrder β] (S : α → Prop) (d : α → γ) (k : α → β) (rest : α → α → Prop) : Prop :=
  ∀ a b c, S a → S b → S c → d a = d c → d b ≠ d a → rest a c → ¬(k c ≤ k b ∧ k b ≤ k a)

theorem thenBy_iff [LinearOrder β] {d : α → γ} {k : α → β}
    (htie : ∀ a b, S a → S b → d a = d b → ¬rest a b → ¬rest b a → k a = k b) : StrictWeak S (ThenBy d k rest) ↔
    (∀ x, S x → StrictWeak (fun a => S a ∧ d a = d x) rest) ∧ Apart S d k rest := by
  constructor
  case mp =>
    refine fun h => ⟨fun x _ => ?_, fun a b c ha hb hc hac hba hr hbetween => ?_⟩
    · refine (congr fun a b ha hb => ?_).mp (h.mono (T := fun a => S a ∧ d a = d x) fun a ha => ha.1)
      simp [ThenBy, ha.2, hb.2]
    · have hlt : ThenBy d k rest a c := .inl ⟨hac, hr⟩
      rcases h.split ha hb hc hlt with (⟨heq, _⟩ | ⟨_, hlt⟩) | (⟨heq, _⟩ | ⟨_, hlt⟩)
      · exact hba heq.symm
      · exact not_lt_of_ge hbetween.2 hlt
      · exact hba (heq.trans hac.symm)
      · exact not_lt_of_ge hbetween.1 hlt
  case mpr =>
    rintro ⟨hrest, hapart⟩
    refine of_split (fun a b ha hb hab hba => ?_) fun a b c ha hb hc hac => ?_
    · rcases hab with ⟨heq, hab⟩ | ⟨hne, hab⟩
      · rcases hba with ⟨_, hba⟩ | ⟨hne, _⟩
        · exact (hrest a ha).asymm ⟨ha, rfl⟩ ⟨hb, heq.symm⟩ hab hba
        · exact hne heq.symm
      · rcases hba with ⟨heq, _⟩ | ⟨_, hba⟩
        · exact hne heq.symm
        · exact lt_asymm hab hba
    · rcases hac with ⟨hac, hr⟩ | ⟨hac, hlt⟩
      · by_cases hba : d b = d a
        case pos =>
          refine ((hrest a ha).split ⟨ha, rfl⟩ ⟨hb, hba⟩ ⟨hc, hac.symm⟩ hr).imp (fun h => ?_) fun h => ?_
          · exact .inl ⟨hba.symm, h⟩
          · exact .inl ⟨hba.trans hac, h⟩
        case neg =>
          rcases not_and_or.mp (hapart a b c ha hb hc hac hba hr) with h | h
          · exact .inr (.inr ⟨fun heq => hba (heq.trans hac.symm), lt_of_not_ge h⟩)
          · exact .inl (.inr ⟨fun heq => hba heq.symm, lt_of_not_ge h⟩)
      · by_cases hab : d a = d b
        case pos =>
          by_contra hn
          obtain ⟨hnab, hnbc⟩ := not_or.mp hn
          have hnr : ¬rest a b := fun hr => hnab (.inl ⟨hab, hr⟩)
          have hle : k c ≤ k b := le_of_not_gt fun hlt => hnbc (.inr ⟨fun heq => hac (hab.trans heq), hlt⟩)
          by_cases hr : rest b a
          case pos => exact hapart b c a hb hc ha hab.symm (fun heq => hac (hab.trans heq.symm)) hr ⟨le_of_lt hlt, hle⟩
          case neg => exact absurd (htie a b ha hb hab hnr hr) (ne_of_lt (lt_of_lt_of_le hlt hle))
        case neg =>
          by_cases hbc : d b = d c
          case pos =>
            by_contra hn
            obtain ⟨hnab, hnbc⟩ := not_or.mp hn
            have hnr : ¬rest b c := fun hr => hnbc (.inl ⟨hbc, hr⟩)
            have hle : k b ≤ k a := le_of_not_gt fun hlt => hnab (.inr ⟨hab, hlt⟩)
            by_cases hr : rest c b
            case pos => exact hapart c a b hc ha hb hbc.symm hac hr ⟨hle, le_of_lt hlt⟩
            case neg => exact absurd (htie b c hb hc hbc hnr hr) (ne_of_lt (lt_of_le_of_lt hle hlt))
          case neg =>
            rcases lt_or_ge (k a) (k b) with h | h
            · exact .inl (.inr ⟨hab, h⟩)
            · exact .inr (.inr ⟨hbc, lt_of_le_of_lt h hlt⟩)

-- If the classes are those of the keys, nothing is between two elements of a class.
theorem thenBy_key_iff [LinearOrder β] {k : α → β} :
    StrictWeak S (ThenBy k k rest) ↔ ∀ x, S x → StrictWeak (fun a => S a ∧ k a = k x) rest := by
  rw [thenBy_iff fun a b _ _ heq _ _ => heq]
  refine and_iff_left fun a b c _ _ _ hac hba _ h => hba ?_
  exact le_antisymm h.2 (hac.le.trans h.1)

end StrictWeak
