import Progression.Config
import Progression.Proofs.Exempting

/-!
Settings that pass validation. Validation and construction go through the same lists, the same
limit and the same path by themselves, and each refuses what the other cannot take. Main statement:
validation passes if and only if the settings have no fault, and reports one that they have; and
settings that pass describe a compiler that can be built, unless its log file cannot be opened.
-/

namespace Progression

namespace Config

/-! ### Faults -/

/-- What is wrong with lists of exemptions. -/
inductive Exemptions.HasFault (e : Exemptions) : Fault → Prop
  | tooManyEntries {field : String} {entries : List String} : (field, entries) ∈ e.lists →
      entryLimit < entries.length → HasFault e (.tooManyEntries field)
  | emptyEntry {field : String} {entries : List String} : (field, entries) ∈ e.lists →
      "" ∈ entries → HasFault e (.emptyEntry field)
  | longEntry {field : String} {entries : List String} {entry : String} :
      (field, entries) ∈ e.lists → entry ∈ entries → entrySizeLimit < entry.utf8ByteSize →
      HasFault e (.longEntry field)
  | pattern {s : String} : s ∈ e.patterns → Pattern.compile? s = none →
      HasFault e (.pattern (.invalidPattern s))

/-- What is wrong with the path of a log. Blanks around it do not count. -/
inductive IsPathFault (path : String) : Fault → Prop
  | blankPath : Text.trimBlanks path = "" → IsPathFault path .blankPath
  | longPath : pathSizeLimit < (Text.trimBlanks path).utf8ByteSize → IsPathFault path .longPath
  | longPathPart : hasLongPart (Text.trimBlanks path) = true → IsPathFault path .longPathPart

/-- A log file needs a path, and nothing else may have one. -/
inductive Logging.HasFault (logging : Logging) : Fault → Prop
  | missingPath : logging.sink = .file → logging.path = none → HasFault logging .missingPath
  | path {path : String} {fault : Fault} : logging.sink = .file → logging.path = some path →
      IsPathFault path fault → HasFault logging fault
  | uselessPath {path : String} : logging.sink ≠ .file → logging.path = some path →
      HasFault logging .uselessPath

/-- What is wrong with settings. -/
inductive HasFault (config : Config) : Fault → Prop
  | exemptions {fault : Fault} : config.exemptions.HasFault fault → HasFault config fault
  | rounds : ¬ (minRounds ≤ config.limits.maxFlattenRounds ∧
      config.limits.maxFlattenRounds ≤ maxRounds) → HasFault config .rounds
  | logging {fault : Fault} : config.logging.HasFault fault → HasFault config fault

/-- The check passes if and only if there is no fault, and otherwise reports one. -/
inductive Finds (has : Fault → Prop) : Except Fault Unit → Prop
  | pass : (∀ fault, ¬ has fault) → Finds has (.ok ())
  | report {fault : Fault} : has fault → Finds has (.error fault)

namespace Finds

variable {check check' : Except Fault Unit} {has has' : Fault → Prop}

theorem congr (h : Finds has check) (hiff : ∀ fault, has' fault ↔ has fault) :
    Finds has' check := by
  obtain rfl : has' = has := funext fun fault => propext (hiff fault)
  exact h

/-- Of two checks the second is made if the first passes. -/
theorem andThen (h : Finds has check) (h' : Finds has' check') :
    Finds (fun fault => has fault ∨ has' fault) (check >>= fun _ => check') := by
  cases h with
  | report hfault => exact .report (.inl hfault)
  | pass hnone =>
      cases h' with
      | report hfault => exact .report (.inr hfault)
      | pass hnone' => exact .pass fun fault hfault => hfault.elim (hnone fault) (hnone' fault)

theorem eq_ok_iff (h : Finds has check) : check = .ok () ↔ ∀ fault, ¬ has fault := by
  cases h with
  | pass hnone => exact iff_of_true rfl hnone
  | report hfault => exact iff_of_false nofun fun hnone => hnone _ hfault

theorem exists_error (h : Finds has check) {fault : Fault} (hfault : has fault) :
    ∃ fault', check = .error fault' ∧ has fault' := by
  cases h with
  | pass hnone => exact absurd hfault (hnone fault)
  | report hfault' => exact ⟨_, rfl, hfault'⟩

end Finds

/-! ### Lists of exemptions -/

namespace Exemptions

variable {e : Exemptions} {field : String} {entries : List String} {fault : Fault}

theorem entryFault?_eq_none_iff {entry : String} :
    entryFault? field entry = none ↔ entry ≠ "" ∧ entry.utf8ByteSize ≤ entrySizeLimit := by
  unfold entryFault?
  by_cases hempty : entry = "" <;> simp [hempty]

theorem entryFault?_eq_some {entry : String} (h : entryFault? field entry = some fault) :
    entry = "" ∧ fault = .emptyEntry field ∨
      entrySizeLimit < entry.utf8ByteSize ∧ fault = .longEntry field := by
  unfold entryFault? at h
  split at h
  case isTrue hempty => exact .inl ⟨by simpa using hempty, (Option.some.inj h).symm⟩
  case isFalse =>
      split at h
      case isTrue hlong => exact .inr ⟨hlong, (Option.some.inj h).symm⟩
      case isFalse => contradiction

theorem listFault?_eq_none_iff : listFault? field entries = none ↔
    entries.length ≤ entryLimit ∧
      ∀ entry ∈ entries, entry ≠ "" ∧ entry.utf8ByteSize ≤ entrySizeLimit := by
  unfold listFault?
  split
  case isTrue hmany => simp [Nat.not_le.2 hmany]
  case isFalse hfew =>
      rw [List.findSome?_eq_none_iff, and_iff_right (Nat.le_of_not_lt hfew)]
      simp only [entryFault?_eq_none_iff]

/-- The fault of a list is that there are too many entries, or that of an entry. -/
theorem hasFault_of_listFault? (hlist : (field, entries) ∈ e.lists)
    (h : listFault? field entries = some fault) : e.HasFault fault := by
  unfold listFault? at h
  split at h
  case isTrue hmany =>
      obtain rfl := Option.some.inj h
      exact .tooManyEntries hlist hmany
  case isFalse =>
      obtain ⟨entry, hentry, hfault⟩ := List.exists_of_findSome?_eq_some h
      rcases entryFault?_eq_some hfault with ⟨rfl, rfl⟩ | ⟨hlong, rfl⟩
      · exact .emptyEntry hlist hentry
      · exact .longEntry hlist hentry hlong

/-! ### The policy that lists describe -/

/-- The policy of the lists, given their patterns as they are compiled. -/
def assemble (e : Exemptions) (patterns : List Pattern) : Policy where
  names := (Inventory.ofList e.names).items
  leading := e.prefixes
  trailing := e.suffixes
  inside := e.contains
  patterns := patterns

/-- What adds to the end of a list adds whole lists one by one. -/
theorem foldl_put {α σ : Type} (add : σ → α → σ) (put : List α → σ)
    (h : ∀ l a, add (put l) a = put (l ++ [a])) (as l : List α) :
    as.foldl add (put l) = put (l ++ as) := by
  induction as generalizing l with
  | nil => rw [List.foldl_nil, List.append_nil]
  | cons a as ih => rw [List.foldl_cons, h, ih, List.append_assoc, List.singleton_append]

/-- Patterns are added in their order, up to the first that is not well formed. -/
theorem addPatterns_cases (e : Exemptions) (ss : List String) (seen : List Pattern) :
    (∃ ps, ss.map Pattern.compile? = ps.map some ∧
      addPatterns (e.assemble seen) ss = .ok (e.assemble (seen ++ ps))) ∨
    ∃ s ∈ ss, Pattern.compile? s = none ∧
      addPatterns (e.assemble seen) ss = .error (.pattern (.invalidPattern s)) := by
  induction ss generalizing seen with
  | nil => exact .inl ⟨[], rfl, by rw [addPatterns, List.append_nil]⟩
  | cons s ss ih =>
      rw [addPatterns, Policy.addPattern, Policy.addPatternBy]
      cases hs : Pattern.compile? s with
      | none => exact .inr ⟨s, List.mem_cons_self, hs, rfl⟩
      | some p =>
          rcases ih (seen ++ [p]) with ⟨ps, hps, hadd⟩ | ⟨t, ht, hnone, hadd⟩
          · refine .inl ⟨p :: ps, by rw [List.map_cons, hs, hps, List.map_cons], ?_⟩
            rw [List.append_assoc] at hadd
            exact hadd
          · exact .inr ⟨t, List.mem_cons_of_mem s ht, hnone, hadd⟩

theorem policy_eq (e : Exemptions) : e.policy =
    match addPatterns (e.assemble []) e.patterns with
    | .error fault => .error fault
    | .ok policy =>
      match policy.check with
      | .error err => .error (.exemption err)
      | .ok () => .ok policy := by
  have hnames : e.names.foldl Policy.addName {} =
      { names := (Inventory.ofList e.names).items } :=
    List.foldl_hom (fun inventory : Inventory => ({ names := inventory.items } : Policy))
      fun _ _ => rfl
  have hleading := foldl_put Policy.addLeading
    (fun l => { names := (Inventory.ofList e.names).items, leading := l })
    (fun _ _ => rfl) e.prefixes []
  have htrailing := foldl_put Policy.addTrailing
    (fun l => { names := (Inventory.ofList e.names).items, leading := e.prefixes, trailing := l })
    (fun _ _ => rfl) e.suffixes []
  have hinside := foldl_put Policy.addInside
    (fun l =>
      { names := (Inventory.ofList e.names).items
        leading := e.prefixes
        trailing := e.suffixes
        inside := l })
    (fun _ _ => rfl) e.contains []
  rw [policy, hnames, hleading, List.nil_append, htrailing, List.nil_append, hinside]
  rfl

theorem check_eq_ok {policy : Policy} (hleading : "" ∉ policy.leading)
    (htrailing : "" ∉ policy.trailing) (hinside : "" ∉ policy.inside)
    (hnames : "" ∉ policy.names) : policy.check = .ok () := by
  rw [Policy.check, if_neg hleading, if_neg htrailing, if_neg hinside, if_neg hnames]
  rfl

/-- Without empty entries the policy of the lists is built, unless a pattern is not well formed. -/
theorem policy_cases (hentries : ∀ l ∈ e.lists, "" ∉ l.2) :
    (∃ ps, e.patterns.map Pattern.compile? = ps.map some ∧ e.policy = .ok (e.assemble ps) ∧
      (e.assemble ps).check = .ok ()) ∨
    ∃ s ∈ e.patterns, Pattern.compile? s = none ∧
      e.policy = .error (.pattern (.invalidPattern s)) := by
  rw [policy_eq]
  rcases addPatterns_cases e e.patterns [] with ⟨ps, hps, hadd⟩ | ⟨s, hs, hnone, hadd⟩
  · have hcheck : (e.assemble ps).check = .ok () := by
      refine check_eq_ok ?_ ?_ ?_ ?_
      · exact hentries ("prefixes", e.prefixes) (by simp [lists])
      · exact hentries ("suffixes", e.suffixes) (by simp [lists])
      · exact hentries ("contains", e.contains) (by simp [lists])
      · intro hempty
        exact hentries ("names", e.names) (by simp [lists]) (Inventory.mem_ofList_iff.1 hempty)
    exact .inl ⟨ps, hps, by simp only [hadd, List.nil_append, hcheck], hcheck⟩
  · exact .inr ⟨s, hs, hnone, by rw [hadd]⟩

/-- Validation of lists finds a fault if there is one. -/
theorem finds_validate (e : Exemptions) : Finds e.HasFault e.validate := by
  rw [validate]
  cases hlists : e.lists.findSome? fun l => listFault? l.1 l.2 with
  | some fault =>
      obtain ⟨⟨field, entries⟩, hlist, hfault⟩ := List.exists_of_findSome?_eq_some hlists
      exact .report (hasFault_of_listFault? hlist hfault)
  | none =>
      rw [List.findSome?_eq_none_iff] at hlists
      have hnone : ∀ l ∈ e.lists, l.2.length ≤ entryLimit ∧
          ∀ entry ∈ l.2, entry ≠ "" ∧ entry.utf8ByteSize ≤ entrySizeLimit :=
        fun l hl => listFault?_eq_none_iff.1 (hlists l hl)
      -- Only a pattern can still keep the policy from being built.
      rcases policy_cases (e := e) fun l hl hempty => ((hnone l hl).2 "" hempty).1 rfl with
        ⟨ps, hps, hpolicy, -⟩ | ⟨s, hs, hs', hpolicy⟩
      · rw [hpolicy]
        refine .pass fun fault hfault => ?_
        cases hfault with
        | tooManyEntries hlist hmany =>
            exact absurd hmany (Nat.not_lt.2 (hnone _ hlist).1)
        | emptyEntry hlist hempty => exact ((hnone _ hlist).2 "" hempty).1 rfl
        | longEntry hlist hentry hlong =>
            exact absurd hlong (Nat.not_lt.2 ((hnone _ hlist).2 _ hentry).2)
        | pattern hs hnone =>
            have hmem := List.mem_map_of_mem (f := Pattern.compile?) hs
            rw [hnone, hps] at hmem
            simp at hmem
      · rw [hpolicy]
        exact .report (.pattern hs hs')

end Exemptions

/-! ### The limit and the log -/

theorem Limits.finds_validate (limits : Limits) : Finds (fun fault =>
    fault = .rounds ∧ ¬ (minRounds ≤ limits.maxFlattenRounds ∧
      limits.maxFlattenRounds ≤ maxRounds)) limits.validate := by
  unfold Limits.validate
  split
  case isTrue hrounds => exact .pass fun _ hfault => hfault.2 hrounds
  case isFalse hrounds => exact .report ⟨rfl, hrounds⟩

theorem finds_validateLogPath (path : String) :
    Finds (IsPathFault path) (validateLogPath path) := by
  unfold validateLogPath
  by_cases hblank : Text.trimBlanks path = ""
  · rw [if_pos (by simpa using hblank)]
    exact .report (.blankPath hblank)
  · rw [if_neg (by simpa using hblank)]
    split
    case isTrue hlong => exact .report (.longPath hlong)
    case isFalse hshort =>
        split
        case isTrue hpart => exact .report (.longPathPart hpart)
        case isFalse hparts =>
            refine .pass fun fault hfault => ?_
            cases hfault with
            | blankPath h => exact hblank h
            | longPath h => exact hshort h
            | longPathPart h => exact hparts h

theorem Logging.finds_validate (logging : Logging) : Finds logging.HasFault logging.validate := by
  obtain ⟨sink, path⟩ := logging
  cases path with
  | none =>
      cases sink with
      | file => exact .report (.missingPath rfl rfl)
      | none | stderr => exact .pass fun fault hfault => by cases hfault <;> contradiction
  | some path =>
      cases sink with
      | file =>
          refine (finds_validateLogPath path).congr fun fault => ⟨?_, .path rfl rfl⟩
          rintro (⟨-, hnone⟩ | ⟨-, hpath, hfault⟩ | ⟨hsink, -⟩)
          · contradiction
          · obtain rfl := Option.some.inj hpath
            exact hfault
          · exact absurd rfl hsink
      | none => exact .report (.uselessPath nofun rfl)
      | stderr => exact .report (.uselessPath nofun rfl)

/-- What opening a log without faults comes to; nothing if a file cannot be opened. -/
inductive Logging.Opens (journal : Journal) : Logging → Option (Journal × Sink) → Prop
  | silent : Opens journal ⟨.none, none⟩ (some (journal, .silent))
  | stderr : Opens journal ⟨.stderr, none⟩ (some (journal, .stderr))
  | file (path : String) :
      Opens journal ⟨.file, some path⟩ (journal.openFile? (Text.trimBlanks path))

/-- A log without faults is opened, or its file cannot be. -/
theorem Logging.exists_opens {logging : Logging} (h : ∀ fault, ¬ logging.HasFault fault)
    (journal : Journal) : ∃ opened, logging.Opens journal opened ∧
      logging.openSink journal = opened.elim (.error .unreadable) .ok := by
  obtain ⟨sink, path⟩ := logging
  cases path with
  | none =>
      cases sink with
      | none => exact ⟨_, .silent, rfl⟩
      | stderr => exact ⟨_, .stderr, rfl⟩
      | file => exact absurd (.missingPath rfl rfl) (h .missingPath)
  | some path =>
      cases sink with
      | file =>
          refine ⟨journal.openFile? (Text.trimBlanks path), .file path, ?_⟩
          simp only [openSink]
          cases journal.openFile? (Text.trimBlanks path) with
          | none => rfl
          | some opened => rfl
      | none => exact absurd (.uselessPath nofun rfl) (h .uselessPath)
      | stderr => exact absurd (.uselessPath nofun rfl) (h .uselessPath)

/-! ### Main statement -/

variable {config : Config}

/-- The parts are checked in turn. -/
theorem finds_validate (config : Config) : ∃ check : Except Fault Unit,
    config.validate = check.mapError .invalid ∧ Finds config.HasFault check := by
  refine ⟨do
    config.exemptions.validate
    config.limits.validate
    config.logging.validate, ?_, ?_⟩
  · rw [validate]
    cases (do
      config.exemptions.validate
      config.limits.validate
      config.logging.validate : Except Fault Unit) <;> rfl
  · refine Finds.congr (config.exemptions.finds_validate.andThen
      (config.limits.finds_validate.andThen config.logging.finds_validate)) fun fault => ⟨?_, ?_⟩
    · rintro (hfault | hrounds | hfault)
      · exact .inl hfault
      · exact .inr (.inl ⟨rfl, hrounds⟩)
      · exact .inr (.inr hfault)
    · rintro (hfault | ⟨rfl, hrounds⟩ | hfault)
      · exact .exemptions hfault
      · exact .rounds hrounds
      · exact .logging hfault

/-- The policy has the names in order and without repetition, and the other lists as they are. -/
structure Exemptions.Describes (e : Exemptions) (policy : Policy) : Prop where
  pairwise_names : policy.names.Pairwise (· < ·)
  mem_names_iff : ∀ s, s ∈ policy.names ↔ s ∈ e.names
  /-- Every pattern is what its text is compiled to. -/
  compiled : e.patterns.map Pattern.compile? = policy.patterns.map some
  rules_eq : policy.rules = policy.names.map .name ++ e.prefixes.map .leading ++
    e.suffixes.map .trailing ++ e.contains.map .inside ++ policy.patterns.map .pattern

theorem Exemptions.describes_assemble {e : Exemptions} {ps : List Pattern}
    (h : e.patterns.map Pattern.compile? = ps.map some) : e.Describes (e.assemble ps) where
  pairwise_names := Inventory.pairwise_ofList e.names
  mem_names_iff _ := Inventory.mem_ofList_iff
  compiled := h
  rules_eq := rfl

/-- Validation passes if and only if settings have no fault, and otherwise it reports one that they
have. Settings that pass describe a policy, which is in order, and a number of rounds; and a
compiler with them can be built, unless a log file cannot be opened. -/
theorem validate_builds (config : Config) :
    (config.validate = .ok () → ∃ policy, config.policy = .ok policy ∧ policy.check = .ok () ∧
      config.exemptions.Describes policy ∧
      1 ≤ config.limits.maxFlattenRounds ∧ config.limits.maxFlattenRounds ≤ 4096 ∧
      ∀ journal, ∃ opened, config.logging.Opens journal opened ∧
        config.openSink journal = opened.elim (.error .unreadable) .ok ∧
        config.compiler journal = opened.elim (.error .unreadable) fun (journal, sink) =>
          .ok (journal, { policy, maxRounds := config.limits.maxFlattenRounds, sink })) ∧
    (config.validate = .ok () ↔ ∀ fault, ¬ config.HasFault fault) ∧
    ∀ fault, config.HasFault fault →
      ∃ fault', config.validate = .error (.invalid fault') ∧ config.HasFault fault' := by
  obtain ⟨check, hcheck, hfinds⟩ := config.finds_validate
  have hok : config.validate = .ok () ↔ ∀ fault, ¬ config.HasFault fault := by
    rw [← hfinds.eq_ok_iff, hcheck]
    cases check <;> simp [Except.mapError]
  refine ⟨fun hvalid => ?_, hok, fun fault hfault => ?_⟩
  · have hnone := hok.1 hvalid
    have hentries : ∀ l ∈ config.exemptions.lists, "" ∉ l.2 :=
      fun l hl hempty => hnone _ (.exemptions (.emptyEntry hl hempty))
    have hrounds := Classical.not_not.1 fun hrounds => hnone _ (.rounds hrounds)
    rcases Exemptions.policy_cases hentries with ⟨ps, hps, hpolicy, hpass⟩ | ⟨s, hs, hbad, -⟩
    · have hpolicy' : config.policy = .ok (config.exemptions.assemble ps) := by
        rw [policy, hpolicy]
        rfl
      refine ⟨_, hpolicy', hpass, Exemptions.describes_assemble hps, hrounds.1, hrounds.2,
        fun journal => ?_⟩
      obtain ⟨opened, hopens, hsink⟩ :=
        Logging.exists_opens (fun fault hfault => hnone fault (.logging hfault)) journal
      have hsink' : config.openSink journal = opened.elim (.error .unreadable) .ok := hsink
      refine ⟨opened, hopens, hsink', ?_⟩
      rw [compiler, hpolicy', hsink']
      cases opened <;> rfl
    · exact absurd (.exemptions (.pattern hs hbad)) (hnone _)
  · obtain ⟨fault', heq, hfault'⟩ := hfinds.exists_error hfault
    exact ⟨fault', by rw [hcheck, heq]; rfl, hfault'⟩

/-- A name is listed twice, and there are blanks around the path of the log. -/
def harbor : Config where
  exemptions := { names := ["pier", "dock", "pier"], prefixes := ["old_"], patterns := ["q+u"] }
  limits := { maxFlattenRounds := 4096 }
  logging := ⟨.file, some " log "⟩

/-- The compiler can be built, but the path may not stand beside another sink. -/
theorem validate_builds_harbor : harbor.validate = .ok () ∧
    (∃ policy, harbor.policy = .ok policy ∧ policy.check = .ok () ∧
      policy.rules.map Exemption.value = ["dock", "pier", "old_", "q+u"] ∧
      (harbor.compiler {}).map (fun built => built.2.maxRounds) = .ok 4096) ∧
    ∃ fault, ({ harbor with logging := ⟨.stderr, some " log "⟩ } : Config).validate =
      .error (.invalid fault) := by
  have hlog : validateLogPath " log " = .ok () := by
    have htrim : Text.trimBlanks " log " = "log" := by cbv
    simp only [validateLogPath, htrim]
    cbv
  have hvalid : harbor.validate = .ok () := by
    have hlists : harbor.exemptions.validate = .ok () := by cbv
    have hlogging : harbor.logging.validate = .ok () := hlog
    rw [validate, hlists, hlogging]
    rfl
  have hrules : harbor.policy.map (fun policy => policy.rules.map Exemption.value) =
      .ok ["dock", "pier", "old_", "q+u"] := by cbv
  have hrounds : (harbor.compiler {}).map (fun built => built.2.maxRounds) = .ok 4096 := by cbv
  obtain ⟨policy, hpolicy, hcheck, -⟩ := (validate_builds harbor).1 hvalid
  obtain ⟨fault, hfault, -⟩ :=
    (validate_builds { harbor with logging := ⟨.stderr, some " log "⟩ }).2.2 .uselessPath
      (.logging (.uselessPath (by decide) rfl))
  rw [hpolicy] at hrules
  exact ⟨hvalid, ⟨policy, hpolicy, hcheck, Except.ok.inj hrules, hrounds⟩, fault, hfault⟩

end Config

end Progression
