import Provision.Plan.Basic

/-!
# Laws of defaults

What is set stays set, so a second set of defaults has nothing left to fill in, and the type that an
older name of one stands for is itself no older name. Normalizing therefore absorbs every later
normalizing, with these defaults or others, and a plan is the same for settings that have been
normalized as for those that have not.
-/

namespace Provision

/-! ## Types of sites -/

/-- No type that an older name stands for is an older name. -/
theorem lookup_siteTypeAliases {name kind : String} (h : siteTypeAliases.lookup name = some kind) :
    siteTypeAliases.lookup kind = none := by
  have hcurrent : ∀ entry ∈ siteTypeAliases, siteTypeAliases.lookup entry.2 = none := by decide
  obtain ⟨before, after, heq, -⟩ := List.lookup_eq_some_iff.mp h
  exact hcurrent (name, kind) (by rw [heq]; simp)

/-- A name that is no older name stands for itself. -/
theorem canonicalSiteType_of_lookup_eq_none {kind : String}
    (h : siteTypeAliases.lookup kind = none) : canonicalSiteType kind = kind := by
  unfold canonicalSiteType
  rw [h, Option.getD_none]

/-- No older name stands for another older name. -/
theorem canonicalSiteType_canonicalSiteType (kind : String) :
    canonicalSiteType (canonicalSiteType kind) = canonicalSiteType kind := by
  rcases hkind : siteTypeAliases.lookup kind with _ | current
  · rw [canonicalSiteType_of_lookup_eq_none hkind, canonicalSiteType_of_lookup_eq_none hkind]
  · have hcanonical : canonicalSiteType kind = current := by
      unfold canonicalSiteType
      rw [hkind, Option.getD_some]
    rw [hcanonical, canonicalSiteType_of_lookup_eq_none (lookup_siteTypeAliases hkind)]

/-! ## Normalizing once more -/

/-- A normalized mapping has nothing left to fill. -/
theorem PortMapping.normalized_normalized (mapping : PortMapping) :
    mapping.normalized.normalized = mapping.normalized := by
  unfold normalized
  simp only [Option.or_assoc, Option.or_self]

/-- A normalized site has nothing left to fill. -/
theorem Site.normalized_normalized (site : Site) : site.normalized.normalized = site.normalized := by
  unfold normalized
  simp only [Option.getD_some, canonicalSiteType_canonicalSiteType, Option.or_assoc,
    Option.some_or]

namespace Settings

/-- The defaults of the first normalizing count, whatever those of the second are. -/
theorem normalizedWith_normalizedWith (s : Settings) (first second : Defaults) :
    (s.normalizedWith first).normalizedWith second = s.normalizedWith first := by
  have hports : (s.ports.map PortMapping.normalized).map PortMapping.normalized =
      s.ports.map PortMapping.normalized := by
    rw [List.map_map]
    exact List.map_congr_left fun mapping _ => mapping.normalized_normalized
  have hsites : (s.sites.map Site.normalized).map Site.normalized =
      s.sites.map Site.normalized := by
    rw [List.map_map]
    exact List.map_congr_left fun site _ => site.normalized_normalized
  unfold normalizedWith
  simp only [hports, hsites, Option.or_assoc, Option.some_or]

/-- Normalized settings have nothing left to fill. -/
theorem normalized_normalized (s : Settings) : s.normalized.normalized = s.normalized :=
  s.normalizedWith_normalizedWith {} {}

/-- Normalizing absorbs every later one, so that doing it twice is doing it once, and settings have
the plan, or the error, that they have when they are normalized beforehand. -/
theorem normalizedWith_absorbs (s : Settings) (first second : Defaults) (host : Host)
    (o : PlanOptions) :
    (s.normalizedWith first).normalizedWith second = s.normalizedWith first ∧
      s.normalized.normalized = s.normalized ∧
      s.normalized.plan host o = s.plan host o := by
  refine ⟨s.normalizedWith_normalizedWith first second, s.normalized_normalized, ?_⟩
  unfold plan
  rw [normalized_normalized]

end Settings

end Provision
