import CatalystNode.FoldTrace

namespace CatalystNode

open FoldTrace

structure DfsContentProvider where
  providers : Std.ExtTreeMap String (Std.ExtTreeSet String)
  providerTimestamps : Std.ExtTreeMap String Nat
  providing : Std.ExtTreeSet String

def providerTimeout : Nat := 3600 * 10 ^ 9

namespace DfsContentProvider

def new : DfsContentProvider := ⟨∅, ∅, ∅⟩

def addProvider (s : DfsContentProvider) (cid provider : String) (now : Nat) : DfsContentProvider :=
  { s with
    providers := s.providers.insert cid ((s.providers[cid]?.getD ∅).insert provider)
    providerTimestamps := s.providerTimestamps.insert provider now }

/-- The timestamp goes even if the provider has other content. -/
def removeProvider (s : DfsContentProvider) (cid provider : String) : DfsContentProvider :=
  { s with
    providers := match s.providers[cid]? with
      | none => s.providers
      | some set =>
        if (set.erase provider).isEmpty then s.providers.erase cid
        else s.providers.insert cid (set.erase provider)
    providerTimestamps := s.providerTimestamps.erase provider }

def expire (s : DfsContentProvider) (provider : String) : DfsContentProvider :=
  { s with
    providers := (s.providers.map (fun _ set => set.erase provider)).filter (fun _ set => !set.isEmpty)
    providerTimestamps := s.providerTimestamps.erase provider }

def expiredProviders (s : DfsContentProvider) (now : Nat) : List String :=
  (s.providerTimestamps.toList.filter (fun e => providerTimeout < now - e.2)).map Prod.fst

def cleanupExpiredProviders (s : DfsContentProvider) (now : Nat) : DfsContentProvider :=
  (s.expiredProviders now).foldl expire s

def provide (s : DfsContentProvider) (cid : String) (now : Nat) : DfsContentProvider :=
  addProvider { s with providing := s.providing.insert cid } cid "local" now

def unprovide (s : DfsContentProvider) (cid : String) : DfsContentProvider :=
  removeProvider { s with providing := s.providing.erase cid } cid "local"

def findProviders (s : DfsContentProvider) (cid : String) (now : Nat) :
    List String × DfsContentProvider :=
  let s := s.cleanupExpiredProviders now
  ((s.providers[cid]?.getD ∅).toList, s)

end DfsContentProvider

inductive ProviderCall where
  | addProvider (cid provider : String)
  | removeProvider (cid provider : String)
  | provide (cid : String)
  | unprovide (cid : String)
  | findProviders (cid : String)

def ProviderCall.announces : Nat × ProviderCall → Option (String × Nat)
  | (now, .addProvider _ provider) => some (provider, now)
  | (now, .provide _) => some ("local", now)
  | _ => none

namespace DfsContentProvider

def call (s : DfsContentProvider) : Nat × ProviderCall → DfsContentProvider
  | (now, .addProvider cid provider) => s.addProvider cid provider now
  | (_, .removeProvider cid provider) => s.removeProvider cid provider
  | (now, .provide cid) => s.provide cid now
  | (_, .unprovide cid) => s.unprovide cid
  | (now, .findProviders cid) => (s.findProviders cid now).2

def Offers (s : DfsContentProvider) (provider cid : String) : Prop :=
  ∃ set, s.providers[cid]? = some set ∧ provider ∈ set

/-- A provider is removed from a content only when it offers no other one. -/
def RemovesLast (s : DfsContentProvider) : ProviderCall → Prop
  | .removeProvider cid provider => ∀ other, s.Offers provider other → other = cid
  | .unprovide cid => ∀ other, s.Offers "local" other → other = cid
  | _ => True

structure Dated (announced : List (String × Nat)) (s : DfsContentProvider) : Prop where
  stamped : ∀ provider cid, s.Offers provider cid → provider ∈ s.providerTimestamps
  announced : ∀ (provider : String) (t : Nat), s.providerTimestamps[provider]? = some t →
    (provider, t) ∈ announced

section Steps

variable {s : DfsContentProvider} {provider cid p c : String} {now : Nat}
  {announced : List (String × Nat)}

theorem offers_addProvider (offers : (s.addProvider cid provider now).Offers p c) :
    p = provider ∨ s.Offers p c := by
  obtain ⟨set, held, mem⟩ := offers
  rw [addProvider, Std.ExtTreeMap.getElem?_insert] at held
  split at held
  next same =>
    cases held
    rcases Std.ExtTreeSet.mem_insert.mp mem with new | old
    · exact .inl (Std.LawfulEqCmp.compare_eq_iff_eq.mp new).symm
    · refine .inr ?_
      rw [Std.LawfulEqCmp.compare_eq_iff_eq.mp same] at old
      cases before : s.providers[c]? with
      | none => simp [before] at old
      | some set => exact ⟨set, before, by simpa [before] using old⟩
  next => exact .inr ⟨set, held, mem⟩

theorem offers_removeProvider (offers : (s.removeProvider cid provider).Offers p c) :
    s.Offers p c ∧ (c = cid → p ≠ provider) := by
  obtain ⟨set, held, mem⟩ := offers
  rw [removeProvider] at held
  cases before : s.providers[cid]? with
  | none =>
    simp only [before] at held
    refine ⟨⟨set, held, mem⟩, ?_⟩
    rintro rfl
    rw [before] at held
    cases held
  | some old =>
    simp only [before] at held
    split at held
    · rw [Std.ExtTreeMap.getElem?_erase] at held
      split at held
      next => cases held
      next other =>
        refine ⟨⟨set, held, mem⟩, ?_⟩
        rintro rfl
        exact absurd Std.ReflCmp.compare_self other
    · rw [Std.ExtTreeMap.getElem?_insert] at held
      split at held
      next same =>
        cases held
        obtain ⟨other, mem⟩ := Std.ExtTreeSet.mem_erase.mp mem
        rw [← Std.LawfulEqCmp.compare_eq_iff_eq.mp same]
        refine ⟨⟨old, before, mem⟩, fun _ here => other ?_⟩
        rw [here]
        exact Std.ReflCmp.compare_self
      next other =>
        refine ⟨⟨set, held, mem⟩, ?_⟩
        rintro rfl
        exact absurd Std.ReflCmp.compare_self other

theorem offers_expire (offers : (s.expire provider).Offers p c) : s.Offers p c ∧ p ≠ provider := by
  obtain ⟨set, held, mem⟩ := offers
  rw [expire, Std.ExtTreeMap.getElem?_filter', Std.ExtTreeMap.getElem?_map] at held
  obtain ⟨mapped, -⟩ := Option.filter_eq_some_iff.mp held
  obtain ⟨old, before, rfl⟩ := Option.map_eq_some_iff.mp mapped
  obtain ⟨other, mem⟩ := Std.ExtTreeSet.mem_erase.mp mem
  refine ⟨⟨old, before, mem⟩, ?_⟩
  rintro rfl
  exact other Std.ReflCmp.compare_self

theorem Dated.add (dated : s.Dated announced) (cid provider : String) (now : Nat) :
    (s.addProvider cid provider now).Dated (announced ++ [(provider, now)]) := by
  refine ⟨fun p c offers => ?_, fun p t held => ?_⟩
  · refine Std.ExtTreeMap.mem_insert.mpr ?_
    rcases offers_addProvider offers with rfl | before
    · exact .inl Std.ReflCmp.compare_self
    · exact .inr (dated.stamped p c before)
  · rw [addProvider, Std.ExtTreeMap.getElem?_insert] at held
    split at held
    next same =>
      cases held
      rw [Std.LawfulEqCmp.compare_eq_iff_eq.mp same]
      exact List.mem_append_right _ List.mem_cons_self
    next => exact List.mem_append_left _ (dated.announced p t held)

/-- A provider loses its timestamp together with its last content. -/
theorem Dated.erase (dated : s.Dated announced) {s' : DfsContentProvider}
    (erased : s'.providerTimestamps = s.providerTimestamps.erase provider)
    (offers : ∀ p c, s'.Offers p c → s.Offers p c ∧ p ≠ provider) : s'.Dated announced := by
  refine ⟨fun p c here => ?_, fun p t held => ?_⟩
  · obtain ⟨before, other⟩ := offers p c here
    rw [erased]
    refine Std.ExtTreeMap.mem_erase.mpr ⟨?_, dated.stamped p c before⟩
    rw [ne_eq, Std.LawfulEqCmp.compare_eq_iff_eq]
    exact Ne.symm other
  · rw [erased, Std.ExtTreeMap.getElem?_erase] at held
    split at held
    · cases held
    · exact dated.announced p t held

theorem Dated.remove (dated : s.Dated announced)
    (last : ∀ other, s.Offers provider other → other = cid) :
    (s.removeProvider cid provider).Dated announced := by
  refine dated.erase rfl (fun p c here => ?_)
  obtain ⟨before, gone⟩ := offers_removeProvider here
  refine ⟨before, ?_⟩
  rintro rfl
  exact gone (last c before) rfl

theorem Dated.cleanup (dated : s.Dated announced) (now : Nat) :
    (s.cleanupExpiredProviders now).Dated announced :=
  foldl_invariant dated (fun _ _ _ dated => dated.erase rfl (fun _ _ => offers_expire))

theorem Dated.withProviding (dated : s.Dated announced) (providing : Std.ExtTreeSet String) :
    Dated announced { s with providing } := ⟨dated.stamped, dated.announced⟩

theorem Dated.call (dated : s.Dated announced) {c : Nat × ProviderCall} (last : s.RemovesLast c.2) :
    (s.call c).Dated (announced ++ (ProviderCall.announces c).toList) := by
  have silent : announced ++ (none : Option (String × Nat)).toList = announced := List.append_nil _
  obtain ⟨now, c⟩ := c
  cases c with
  | addProvider cid provider => exact dated.add cid provider now
  | provide cid => exact (dated.withProviding _).add cid "local" now
  | removeProvider cid provider => exact silent.symm ▸ dated.remove last
  | unprovide cid => exact silent.symm ▸ Dated.remove (dated.withProviding (s.providing.erase cid)) last
  | findProviders cid => exact silent.symm ▸ dated.cleanup now

theorem timestamps_foldl_expire (names : List String) (s : DfsContentProvider) (p : String) :
    (names.foldl expire s).providerTimestamps[p]? =
      if p ∈ names then none else s.providerTimestamps[p]? := by
  induction names generalizing s with
  | nil => simp
  | cons name names ih =>
    rw [List.foldl_cons, ih, expire, Std.ExtTreeMap.getElem?_erase]
    by_cases later : p ∈ names
    · simp [later]
    · by_cases here : name = p
      · simp [here]
      · simp [later, here, Ne.symm here]

theorem Dated.found (dated : s.Dated announced) (mem : p ∈ (s.findProviders cid now).1) :
    ∃ t, (p, t) ∈ announced ∧ now ≤ t + providerTimeout := by
  have offers : (s.cleanupExpiredProviders now).Offers p cid := by
    rw [findProviders, Std.ExtTreeSet.mem_toList] at mem
    cases held : (s.cleanupExpiredProviders now).providers[cid]? with
    | none => simp [held] at mem
    | some set => exact ⟨set, held, by simpa [held] using mem⟩
  have stamped := (dated.cleanup now).stamped p cid offers
  obtain ⟨t, held⟩ := Option.isSome_iff_exists.mp (Std.ExtTreeMap.mem_iff_isSome_getElem?.mp stamped)
  rw [cleanupExpiredProviders, timestamps_foldl_expire] at held
  split at held
  next => cases held
  next recent =>
    refine ⟨t, dated.announced p t held, ?_⟩
    by_contra old
    refine recent (List.mem_map.mpr ⟨(p, t), List.mem_filter.mpr ⟨?_, ?_⟩, rfl⟩)
    · exact Std.ExtTreeMap.mem_toList_iff_getElem?_eq_some.mpr held
    · exact decide_eq_true (by omega)

theorem Dated.run {calls : List (Nat × ProviderCall)}
    (last : ∀ step ∈ foldSteps DfsContentProvider.call new calls, step.1.RemovesLast step.2.2) :
    (calls.foldl DfsContentProvider.call new).Dated (calls.filterMap ProviderCall.announces) := by
  induction calls using List.reverseRecOn with
  | nil =>
    refine ⟨?_, fun p t held => by simp [new] at held⟩
    rintro p c ⟨set, held, -⟩
    simp [new] at held
  | append_singleton calls c ih =>
    rw [foldSteps_append] at last
    rw [List.foldl_concat, List.filterMap_append]
    have before := ih (fun step listed => last step (List.mem_append_left _ listed))
    have one : [c].filterMap ProviderCall.announces = (ProviderCall.announces c).toList := by
      cases announces : ProviderCall.announces c <;> simp [announces]
    rw [one]
    exact before.call (last (_, c) (List.mem_append_right _ List.mem_cons_self))

/-- If providers are only removed from the last content they offer, every provider that is returned was
announced at most an hour before. -/
theorem findProviders_recent (calls : List (Nat × ProviderCall))
    (clock : calls.Pairwise (fun a b => a.1 ≤ b.1))
    (last : ∀ step ∈ foldSteps DfsContentProvider.call new calls, step.1.RemovesLast step.2.2) :
    ∀ before now cid after, calls = before ++ (now, .findProviders cid) :: after →
      ∀ p ∈ ((before.foldl DfsContentProvider.call new).findProviders cid now).1,
        ∃ t, (p, t) ∈ before.filterMap ProviderCall.announces ∧ t ≤ now ∧ now ≤ t + providerTimeout := by
  rintro before now cid after rfl p mem
  rw [foldSteps_append] at last
  have dated := Dated.run (fun step listed => last step (List.mem_append_left _ listed))
  obtain ⟨t, announced, recent⟩ := dated.found mem
  refine ⟨t, announced, ?_, recent⟩
  obtain ⟨c, listed, announces⟩ := List.mem_filterMap.mp announced
  have earlier := (List.pairwise_append.mp clock).2.2 c listed _ List.mem_cons_self
  obtain ⟨time, c⟩ := c
  cases c <;> simp [ProviderCall.announces] at announces
  · exact announces.2 ▸ earlier
  · exact announces.2 ▸ earlier

def twoContents (removed : List (Nat × ProviderCall)) : List (Nat × ProviderCall) :=
  [(0, .addProvider "a" "p"), (0, .addProvider "b" "p")] ++ removed

theorem findProviders_recent_hour :
    (((twoContents []).foldl DfsContentProvider.call new).findProviders "a" providerTimeout).1 = ["p"] ∧
      ∃ t, ("p", t) ∈ (twoContents []).filterMap ProviderCall.announces ∧ t ≤ providerTimeout ∧
        providerTimeout ≤ t + providerTimeout := by
  have offered : (((twoContents []).foldl DfsContentProvider.call new).findProviders "a"
      providerTimeout).1 = ["p"] := by decide +kernel
  refine ⟨offered, findProviders_recent (twoContents [] ++ [(providerTimeout, .findProviders "a")])
    (by decide) (fun step listed => ?_) (twoContents []) providerTimeout "a" [] rfl "p" ?_⟩
  · simp only [twoContents, foldSteps, List.append_nil, List.cons_append, List.nil_append,
      List.mem_cons, List.not_mem_nil, or_false] at listed
    rcases listed with rfl | rfl | rfl <;> trivial
  · rw [offered]
    exact List.mem_cons_self

theorem findProviders_stale :
    (((twoContents [(1, .removeProvider "b" "p")]).foldl DfsContentProvider.call new).findProviders "a"
      (10 * providerTimeout)).1 = ["p"] ∧
    (((twoContents []).foldl DfsContentProvider.call new).findProviders "a"
      (10 * providerTimeout)).1 = [] := by
  decide +kernel

end Steps

end DfsContentProvider

end CatalystNode
