import RegexCorpus.Proofs.Record.Format
import RegexCorpus.Record.Any

/-!
# Published records on lines

A module of a registry or a page of a site is read back from its line by its type, whatever its
fields hold. Both are instances of `Format`; `KeptByLine` says what is kept, with any room that there
is for the values.
-/

namespace RegexCorpus
open List Value Outcome Json

namespace Publish

open Value (proper_str proper_int proper_null)

/-! ### The kind on a line -/

section
variable {κ α : Type} {ofName? : Value → Option κ} {read : κ → Outcome α} {line : Value}
  {ms : Members} {room : ℕ}

theorem byType_known (h : ofLine line room = .ok (.object ms)) {v : Value} {kind : κ}
    (htype : findMember ms "type" = some v) (hkind : ofName? v = some kind) :
    byType ofName? read line room = read kind := by
  rw [byType, h, ok_bind, has_object, htype, ok_bind, Option.isSome_some,
    Bool.not_true, if_neg (by simp), get_object_eq_ok.mpr htype, ok_bind, hkind]

theorem byType_refused (h : ofLine line room = .ok (.object ms))
    (htype : ∀ v, findMember ms "type" = some v → ofName? v = none) :
    ∃ message, byType ofName? read line room = .error (.badValue message) := by
  rw [byType, h, ok_bind, has_object, ok_bind]
  cases hv : findMember ms "type" with
  | none => exact ⟨_, rfl⟩
  | some v =>
    rw [Option.isSome_some, Bool.not_true, if_neg (by simp), get_object_eq_ok.mpr hv,
      ok_bind, htype v hv]
    exact ⟨_, rfl⟩

theorem exists_object_of_ofLine {obj : Value} (h : ofLine line room = .ok obj) :
    ∃ ms, obj = .object ms ∧ Value.FitsRoom room (.object ms) := by
  rw [ofLine, bind_eq_ok] at h
  obtain ⟨text, -, h⟩ := h
  exact ofText_sound h

/-- A record that was read comes from an object whose type names its kind. -/
theorem exists_kind_of_byType {a : α} (h : byType ofName? read line room = .ok a) :
    ∃ ms v kind, ofLine line room = .ok (.object ms) ∧
      Value.FitsRoom room (.object ms) ∧ findMember ms "type" = some v ∧
        ofName? v = some kind ∧ read kind = .ok a := by
  obtain ⟨obj, hobj⟩ : ∃ obj, ofLine line room = .ok obj := by
    rw [byType, bind_eq_ok] at h
    obtain ⟨obj, hobj, -⟩ := h
    exact ⟨obj, hobj⟩
  obtain ⟨ms, rfl, hfits⟩ := exists_object_of_ofLine hobj
  by_cases hkind : ∃ v kind, findMember ms "type" = some v ∧ ofName? v = some kind
  · obtain ⟨v, kind, hv, hkind⟩ := hkind
    rw [byType_known hobj hv hkind] at h
    exact ⟨ms, v, kind, hobj, hfits, hv, hkind, h⟩
  · have hnone : ∀ v, findMember ms "type" = some v → ofName? v = none := fun v hv =>
      Option.eq_none_iff_forall_ne_some.mpr fun kind hk => hkind ⟨v, kind, hv, hk⟩
    obtain ⟨message, hrefused⟩ :
        ∃ message, byType ofName? read line room = .error (.badValue message) :=
      byType_refused hobj hnone
    rw [hrefused] at h
    cases h

/-- Of the lines that hold an object, those are refused whose type is missing or has another name;
from the others a record is read, unless a key is missing. -/
structure ChecksType (ofLine : ℕ → Value → Outcome α) (names : List String) : Prop where
  refused : ∀ {room : ℕ} {line obj : Value}, Json.ofLine line room = .ok obj →
    ((∃ message, ofLine room line = .error (.badValue message)) ↔
      ¬∃ name ∈ names, obj.get "type" = .ok (.str name))
  taken : ∀ {room : ℕ} {line obj : Value}, Json.ofLine line room = .ok obj →
    (∃ name ∈ names, obj.get "type" = .ok (.str name)) →
      (∃ a, ofLine room line = .ok a) ∨ ∃ key, ofLine room line = .error (.missingKey key)

theorem checksType_byType {read : ℕ → Value → κ → Outcome α} {names : List String}
    (hnames : ∀ v, (∃ kind, ofName? v = some kind) ↔ ∃ name ∈ names, v = .str name)
    (hread : ∀ {room line ms v kind}, ofLine line room = .ok (.object ms) →
      findMember ms "type" = some v → ofName? v = some kind →
        (∃ a, read room line kind = .ok a) ∨ ∃ key, read room line kind = .error (.missingKey key)) :
    ChecksType (fun room line => byType ofName? (read room line) line room) names := by
  have htaken {room : ℕ} {line : Value} {ms : Members}
      (h : ofLine line room = .ok (.object ms))
      (hname : ∃ name ∈ names, (Value.object ms).get "type" = .ok (.str name)) :
      (∃ a, byType ofName? (read room line) line room = .ok a) ∨
        ∃ key, byType ofName? (read room line) line room = .error (.missingKey key) := by
    obtain ⟨name, hmem, hget⟩ := hname
    rw [get_object_eq_ok] at hget
    obtain ⟨kind, hkind⟩ := (hnames (.str name)).mpr ⟨name, hmem, rfl⟩
    rw [byType_known h hget hkind]
    exact hread h hget hkind
  refine ⟨fun {room line obj} h => ?_, fun {room line obj} h hname => ?_⟩
  · obtain ⟨ms, rfl, -⟩ := exists_object_of_ofLine h
    constructor
    · rintro ⟨message, hrefused⟩ hname
      rcases htaken h hname with ⟨a, ha⟩ | ⟨key, hkey⟩
      · rw [hrefused] at ha
        cases ha
      · rw [hrefused] at hkey
        cases hkey
    · intro hname
      refine byType_refused h fun v hv => ?_
      rw [Option.eq_none_iff_forall_ne_some]
      intro kind hkind
      obtain ⟨name, hmem, rfl⟩ := (hnames v).mp ⟨kind, hkind⟩
      exact hname ⟨name, hmem, get_object_eq_ok.mpr hv⟩
  · obtain ⟨ms, rfl, -⟩ := exists_object_of_ofLine h
    exact htaken h hname

end

namespace Kind

variable {kind : Kind}

theorem ofName?_name (h : kind ≠ .any) : ofName? (.str kind.name) = some kind := by
  cases kind
  · exact absurd rfl h
  all_goals decide

theorem of_ofName? {v : Value} (h : ofName? v = some kind) : kind ∈ specific ∧ v = .str kind.name :=
  ⟨mem_of_find?_eq_some h, same_str.mp (find?_some (p := fun k : Kind => v.same (.str k.name)) h)⟩

theorem ne_any_of_mem (h : kind ∈ specific) : kind ≠ .any := by
  rintro rfl
  revert h
  decide

end Kind

namespace Module

variable {m : Module} {kind : Kind} {p : Parts} {ms : Members}

/-! ### The fields of a module -/

theorem nodup_lineFields (kind : Kind) : ((lineFields kind).map (·.name)).Nodup := by
  cases kind <;> decide

theorem nodup_fields (kind : Kind) : kind.fields.Nodup := by
  cases kind <;> decide

theorem extra_setExtra (key key' : String) (v : Value) (m : Module) :
    extra key' (setExtra key v m) = if key' = key then some v else extra key' m := by
  rw [extra, setExtra, find?_append]
  split_ifs with h
  · have hnone : (m.extras.filter (·.1 != key)).find? (·.1 == key') = none := by
      simp [find?_eq_none, h]
    rw [hnone, h]
    simp
  · have hfilter : (m.extras.filter (·.1 != key)).find? (·.1 == key') =
        m.extras.find? (·.1 == key') := by
      rw [find?_filter]
      congr
      funext e
      grind
    have hlast : [(key, v)].find? (·.1 == key') = none := by simp [Ne.symm h]
    rw [hfilter, hlast, Option.or_none, extra]

/-- What a module holds besides the mark and the fields of the kind. -/
def othersOf (kind : Kind) (m : Module) : Kind × Value × Members :=
  (m.kind, m.type, m.extras.filter fun e => e.1 ∉ kind.fields)

theorem others_setExtra {key : String} (h : key ∈ kind.fields) (v : Value) (m : Module) :
    othersOf kind (setExtra key v m) = othersOf kind m := by
  have hextras : (setExtra key v m).extras.filter (fun e => e.1 ∉ kind.fields) =
      m.extras.filter fun e => e.1 ∉ kind.fields := by
    have hlast : [(key, v)].filter (fun e => decide (e.1 ∉ kind.fields)) = [] := by simp [h]
    rw [setExtra, filter_append, filter_filter, hlast, append_nil]
    refine filter_congr fun e _ => ?_
    by_cases hkey : e.1 = key
    · simp [hkey, h]
    · simp [hkey]
  rw [othersOf, hextras]
  rfl

theorem values_eq (kind : Kind) (m : Module) : DataFields.values (markField :: fields kind) m =
    [some m.initialized, m.registry, m.name, m.version, m.popularity, m.registryUri, m.vcsUri,
      m.gitHubStars, m.gitHubStarsFetchTime, m.tarballPath] ++ kind.fields.map (extra · m) := by
  rw [DataFields.values, fields, extraFields, map_cons, map_append, map_map]
  rfl

theorem values_setExtra {done rest : List String} {key : String}
    (h : kind.fields = done ++ key :: rest) (v : Value) (m : Module) :
    DataFields.values (markField :: fields kind) (setExtra key v m) =
      (DataFields.values (markField :: fields kind) m).set (10 + done.length) (some v) := by
  have hnodup : (done ++ key :: rest).Nodup := by
    rw [← h]
    exact nodup_fields kind
  have hother {k : String} (hk : k ≠ key) : extra k (setExtra key v m) = extra k m := by
    rw [extra_setExtra, if_neg hk]
  have hdone : done.map (extra · (setExtra key v m)) = done.map (extra · m) :=
    map_congr_left fun k hk => hother fun he =>
      (nodup_append.mp hnodup).2.2 k hk key mem_cons_self he
  have hrest : rest.map (extra · (setExtra key v m)) = rest.map (extra · m) :=
    map_congr_left fun k hk => hother fun he =>
      (nodup_cons.mp (nodup_append.mp hnodup).2.1).1 (he ▸ hk)
  have hfields : kind.fields.map (extra · (setExtra key v m)) =
      (kind.fields.map (extra · m)).set done.length (some v) := by
    simp only [h, map_append, map_cons, hdone, hrest, extra_setExtra key key]
    simp
  rw [values_eq, hfields, values_eq, set_append_right _ _ (by simp)]
  congr 2
  simp

theorem setInOrder_extras {done rest : List String} (h : kind.fields = done ++ rest) :
    SetInOrder (DataFields.values (markField :: fields kind)) (othersOf kind) (10 + done.length)
      (rest.map fun key => ⟨key, none, extra key, setExtra key⟩) := by
  induction rest generalizing done with
  | nil => trivial
  | cons key rest ih =>
    refine ⟨fun v m => ⟨values_setExtra h v m, others_setExtra (by simp [h]) v m⟩, ?_⟩
    have hfields : kind.fields = (done ++ [key]) ++ rest := by simpa using h
    have hnext := ih hfields
    rwa [length_append] at hnext

theorem setInOrder_common (kind : Kind) :
    SetInOrder (DataFields.values (markField :: fields kind)) (othersOf kind) 1 commonFields := by
  simp [SetInOrder, commonFields, values_eq, othersOf, extra]

theorem lawful (kind : Kind) :
    DataFields.Lawful (markField :: fields kind) (othersOf kind) := by
  refine ⟨fun v m => ?_,
    (setInOrder_common kind).append (setInOrder_extras (nil_append _).symm)⟩
  rw [values_eq, values_eq]
  exact ⟨rfl, rfl⟩

/-- A module of the kind that has been filled. -/
structure Own (kind : Kind) (m : Module) : Prop where
  kind_eq : m.kind = kind
  initialized_eq : m.initialized = .bool true
  type_eq : m.type = .str kind.name

theorem lineFields_eq (hkind : kind ≠ .any) : lineFields kind = fields kind ++ [typeField] := by
  rw [lineFields, if_neg (by simpa using hkind)]

/-- A module of which all fields have been set. -/
theorem own_setAll {vs : List Value} (hkind : kind ≠ .any)
    (hlength : vs.length = (fields kind).length) :
    Own kind ((fields kind).setAll vs { kind, initialized := .bool true }) ∧
      (lineFields kind).entries ((fields kind).setAll vs { kind, initialized := .bool true }) =
        (((fields kind).map DataField.name).zip vs ++ [("type", Value.str kind.name)]).map
          fun m => (m.1, some m.2) := by
  obtain ⟨hentries, hmark, hothers⟩ :=
    (lawful kind).entries_setAll hlength { kind, initialized := .bool true }
  have htype : ((fields kind).setAll vs { kind, initialized := .bool true }).type =
      .str kind.name := congrArg (fun o => o.2.1) hothers
  refine ⟨⟨congrArg Prod.fst hothers, Option.some.inj hmark, htype⟩, ?_⟩
  rw [lineFields_eq hkind, DataFields.entries, map_append, map_append, ← hentries]
  simp only [DataFields.entries, typeField, map_cons, map_nil, htype]

/-! ### Filling a module -/

theorem fillAll_eq_ok {extras : List Value} (h : (fillAll p extras).run { kind } = (.ok (), m)) :
    m = (fields kind).setAll (p.values ++ extras) { kind, initialized := .bool true } := by
  rw [fillAll] at h
  obtain ⟨_, m', hfill, h⟩ := run_bind_eq_ok.mp h
  rw [fill, run_modify_bind] at hfill
  obtain ⟨registry, -, hfill⟩ := run_lift_bind_eq_ok.mp hfill
  obtain ⟨_, -, hfill⟩ := run_lift_bind_eq_ok.mp hfill
  rw [run_modify_bind] at hfill
  rw [fields, DataFields.setAll_append rfl]
  split at hfill
  · cases hfill
  · cases hfill
    cases h
    rfl

theorem isJson_given {v d : Value} (hv : v.IsJson) (hd : d.IsJson) : (given v d).IsJson := by
  unfold given
  split
  · exact hd
  · exact hv

/-- A module is filled with common parts and with the fields of its kind, all of them taken from
the given parts or fixed. -/
theorem fillFrom_eq (hkind : kind ≠ .any) {parts : List Value}
    (hlength : parts.length = kind.filledWith.length) (hdata : ∀ v ∈ parts, v.IsJson) :
    ∃ (p : Parts) (extras : List Value), fillFrom kind parts = fillAll p extras ∧
      extras.length = kind.fields.length ∧ ∀ v ∈ p.values ++ extras, v.IsJson := by
  have hfixed : Value.null.IsJson ∧ unknownCount.IsJson ∧ noVersion.IsJson ∧ noRegistryUri.IsJson ∧
      noVcsUri.IsJson ∧ noTarball.IsJson :=
    ⟨.atom proper_null, .atom (proper_int _), .atom (proper_str _), .atom (proper_str _),
      .atom (proper_str _), .atom (proper_str _)⟩
  have hstr (s : String) : (Value.str s).IsJson := .atom (proper_str s)
  cases kind with
  | any => exact absurd rfl hkind
  | cpan =>
    match parts, hlength, hdata with
    | [_, _, _, _, _, _], _, hdata =>
      exact ⟨_, _, rfl, rfl, by simp_all [Parts.values, isJson_given]⟩
  | crates =>
    match parts, hlength, hdata with
    | [_, _, _, _, _, _, _, _, _, _], _, hdata =>
      exact ⟨_, _, rfl, rfl, by simp_all [Parts.values, isJson_given]⟩
  | npm =>
    match parts, hlength, hdata with
    | [_, _, _, _, _, _], _, hdata =>
      exact ⟨_, _, rfl, rfl, by simp_all [Parts.values, isJson_given]⟩
  | nuget =>
    match parts, hlength, hdata with
    | [_, _, _], _, hdata => exact ⟨_, _, rfl, rfl, by simp_all [Parts.values, isJson_given]⟩
  | godoc | pypi | packagist | rubygems =>
    match parts, hlength, hdata with
    | [_, _], _, hdata => exact ⟨_, _, rfl, rfl, by simp_all [Parts.values, isJson_given]⟩

/-! ### Reading a module -/

theorem read_cases (hkind : kind ≠ .any) {room : ℕ} {line : Value}
    (h : Json.ofLine line room = .ok (.object ms))
    (htype : findMember ms "type" = some (.str kind.name)) :
    ReadsFields (lineFields kind) (Own kind) ms ((read line room).made { kind }) := by
  rw [Edit.made, read, run_modify_bind, run_lift_bind h]
  have hmem {f : DataField Module} (hf : f ∈ fields kind) : f ∈ lineFields kind :=
    mem_append_left _ hf
  rcases commonFields.readFrom_object ms { kind, initialized := .bool true } with
    hrun | ⟨f, hf, hnone, m, hrun⟩
  · -- the common fields are set, so the type is checked and the fields of the kind follow
    obtain ⟨t, ht⟩ : ∃ t, t = commonFields.setAll (commonFields.map (·.value ms))
      { kind, initialized := .bool true } := ⟨_, rfl⟩
    have hframe : t.kind = kind ∧ t.type = .str kind.name := by
      rw [ht]
      exact ⟨rfl, rfl⟩
    rw [← ht] at hrun
    have hcheck : require ((Value.str kind.name).same t.type) = .ok () := by
      rw [hframe.2]
      exact require_eq_ok.mpr (same_str.mpr rfl)
    rw [run_bind_of_ok hrun, run_get_state_bind, hframe.1, if_pos (by simpa using hkind),
      run_lift_bind (get_object_eq_ok.mpr htype), run_lift_bind hcheck]
    rcases (extraFields kind).readFrom_object ms t with hrun | ⟨f, hf, hnone, m, hrun⟩
    · left
      rw [ht, ← DataFields.setAll_append (by simp), ← map_append] at hrun
      obtain ⟨hown, hentries⟩ := own_setAll hkind (length_map (fun f => f.value ms))
      refine ⟨_, by rw [ht, hrun]; rfl, hown, ?_⟩
      have hvalue : typeField.value ms = .str kind.name := by
        rw [DataField.value, typeField, htype, Option.getD_some]
      rw [hentries, zip_map', lineFields_eq hkind, map_append, map_append, map_map, map_singleton,
        map_singleton, hvalue]
      rfl
    · exact .inr ⟨f, hmem (mem_append_right _ hf), hnone, by rw [hrun]⟩
  · refine .inr ⟨f, hmem (mem_append_left _ hf), hnone, ?_⟩
    rw [run_bind, hrun]

theorem format (hkind : kind ≠ .any) :
    Format (fun room m => toLine m room) (fun room line => ofLine line room) kind.name
      (lineFields kind) (Own kind) where
  nodup := nodup_lineFields kind
  toLine_eq := by
    intro m hown room
    rw [toLine, hown.initialized_eq, hown.kind_eq]
    rfl
  ofLine_eq := by
    intro room line ms h htype
    rw [ofLine, byType_known h htype (Kind.ofName?_name hkind)]
    exact read_cases hkind h htype

/-! ### Modules that were filled or read -/

/-- The module was filled from the parts of its kind, or read from a line. -/
inductive Initialised : Module → Prop
  | filled (kind : Kind) (parts : List Value) {m : Module} (hkind : kind ≠ .any)
      (hlength : parts.length = kind.filledWith.length) (hdata : ∀ v ∈ parts, v.IsJson)
      (h : (fillFrom kind parts).run { kind } = (.ok (), m)) : Initialised m
  | read {line : Value} {room : ℕ} {m : Module} (h : ofLine line room = .ok m) : Initialised m

/-- The values on the line of a module. -/
def values (m : Module) : List Value := ((lineFields m.kind).values m).filterMap id

/-- Two modules are the same in every field, dictionaries taken as mappings. -/
structure SameAs (m n : Module) : Prop where
  kind : m.kind = n.kind
  initialized : m.initialized = n.initialized
  type : m.type = n.type
  fields : (lineFields m.kind).Same m n

/-- A complete module is read back from its line. -/
theorem kept (hkind : kind ≠ .any) (hown : Own kind m)
    (hdata : ∀ e ∈ (lineFields kind).entries m, ∃ v, e.2 = some v ∧ v.IsJson) :
    KeptByLine (fun room m => toLine m room) (fun room line => ofLine line room) m m.values
      m.SameAs := by
  have htype : ("type", some (.str kind.name)) ∈ (lineFields kind).entries m := by
    rw [lineFields_eq hkind, DataFields.entries, map_append, ← hown.type_eq]
    exact mem_append_right _ mem_cons_self
  have hkept := (format hkind).kept hown hdata htype
  obtain rfl := hown.kind_eq
  refine ⟨hkept.line, fun room line hl room' hroom => ?_⟩
  obtain ⟨n, hn, ⟨hown', hsame⟩, hl'⟩ := hkept.back room line hl room' hroom
  refine ⟨n, hn, ⟨hown'.kind_eq.symm, ?_, ?_, hsame⟩, hl'⟩
  · rw [hown.initialized_eq, hown'.initialized_eq]
  · rw [hown.type_eq, hown'.type_eq]

theorem of_ofLine {line : Value} {room : ℕ} (h : ofLine line room = .ok m) :
    ∃ kind n, kind ≠ .any ∧ room = n + 1 ∧ Own kind m ∧
      ∀ e ∈ (lineFields kind).entries m, ∃ v, e.2 = some v ∧ v.FitsRoom n := by
  obtain ⟨ms, v, kind, hobj, hfits, htype, hname, h⟩ := exists_kind_of_byType h
  obtain ⟨n, rfl⟩ := hfits.exists_room
  obtain ⟨hspecific, rfl⟩ := Kind.of_ofName? hname
  have hkind := Kind.ne_any_of_mem hspecific
  rcases read_cases hkind hobj htype with ⟨m', hm, hown, hentries⟩ | ⟨f, -, -, herror⟩
  · cases hm.symm.trans h
    refine ⟨kind, n, hkind, rfl, hown, fits_of_read ?_ hfits hentries⟩
    have hcount : unknownCount.FitsRoom n := .digit (by decide)
    rw [lineFields_eq hkind, fields, forall_mem_append, forall_mem_append]
    refine ⟨⟨?_, forall_mem_map.mpr fun _ _ => .null⟩, by simp [typeField]⟩
    simp [commonFields, noTarball, hcount]
  · cases herror.symm.trans h

theorem Initialised.kept (h : m.Initialised) :
    KeptByLine (fun room m => toLine m room) (fun room line => ofLine line room) m m.values
      m.SameAs := by
  cases h with
  | filled kind parts hkind hlength hdata h =>
    obtain ⟨p, extras, hfill, hnumber, hvalues⟩ := fillFrom_eq hkind hlength hdata
    rw [hfill] at h
    obtain rfl := fillAll_eq_ok h
    have hlength : (p.values ++ extras).length = (fields kind).length := by
      simp [fields, extraFields, commonFields, Parts.values, hnumber]
    obtain ⟨hown, hentries⟩ := own_setAll hkind hlength
    refine Module.kept hkind hown ?_
    rw [hentries]
    refine forall_mem_map.mpr (forall_mem_append.mpr ⟨fun e he => ?_, ?_⟩)
    · exact ⟨_, rfl, hvalues _ (of_mem_zip he).2⟩
    · simp
  | read h =>
    obtain ⟨kind, n, hkind, -, hown, hfits⟩ := of_ofLine h
    exact Module.kept hkind hown fun e he => (hfits e he).imp fun v hv => ⟨hv.1, hv.2.isJson⟩

theorem exists_line_of_ofLine {line : Value} {room : ℕ} (h : ofLine line room = .ok m) :
    ∃ line', m.toLine room = .ok line' := by
  obtain ⟨kind, n, hkind, rfl, hown, hfits⟩ := of_ofLine h
  refine ((Initialised.read h).kept.line n).mpr fun v hv => ?_
  rw [values, hown.kind_eq] at hv
  exact within_of_fits hfits hv

theorem checksType : ChecksType (fun room line => ofLine line room) (Kind.specific.map Kind.name) := by
  refine checksType_byType (fun v => ?_) fun {room line ms v kind} h htype hkind => ?_
  · constructor
    · rintro ⟨kind, hkind⟩
      obtain ⟨hmem, rfl⟩ := Kind.of_ofName? hkind
      exact ⟨kind.name, mem_map_of_mem hmem, rfl⟩
    · rintro ⟨name, hname, rfl⟩
      obtain ⟨kind, hmem, rfl⟩ := mem_map.mp hname
      exact ⟨kind, Kind.ofName?_name (Kind.ne_any_of_mem hmem)⟩
  · obtain ⟨hmem, rfl⟩ := Kind.of_ofName? hkind
    rcases read_cases (Kind.ne_any_of_mem hmem) h htype with ⟨m, hm, -⟩ | ⟨f, -, -, herror⟩
    · exact .inl ⟨m, hm⟩
    · exact .inr ⟨_, herror⟩

end Module

/-! ### Pages -/

namespace Site

theorem ofName?_of_name? {site : Site} {name : String} (h : site.name? = some name) :
    ofName? (.str name) = some site := by
  cases site with
  | any => cases h
  | regExLib | stackOverflow =>
    obtain rfl := Option.some.inj h
    decide

theorem of_ofName? {v : Value} {site : Site} (h : ofName? v = some site) :
    ∃ name, site.name? = some name ∧ v = .str name := by
  have hsame := find?_some h
  cases site with
  | any => simp [name?] at hsame
  | regExLib | stackOverflow => exact ⟨_, rfl, same_str.mp hsame⟩

def names : List String := ["RegExLibRegexSource", "StackOverflowRegexSource"]

theorem mem_names {name : String} : name ∈ names ↔ ∃ site : Site, site.name? = some name := by
  constructor
  · intro h
    simp only [names, mem_cons, not_mem_nil, or_false] at h
    rcases h with rfl | rfl
    · exact ⟨.regExLib, rfl⟩
    · exact ⟨.stackOverflow, rfl⟩
  · rintro ⟨site, h⟩
    cases site with
    | any => cases h
    | regExLib | stackOverflow => simp [names, ← Option.some.inj h]

end Site

namespace WebSource

variable {r : WebSource} {site : Site} {name : String}

/-- The page was filled from its parts, or read from a line. -/
inductive Initialised : WebSource → Prop
  | filled {site : Site} {uri uriAliases patterns : Value} {r : WebSource} (hsite : site ≠ .any)
      (hdata : uri.IsJson ∧ uriAliases.IsJson ∧ patterns.IsJson)
      (h : (fill uri uriAliases patterns).run (empty site) = (.ok (), r)) : Initialised r
  | read {line : Value} {room : ℕ} {r : WebSource} (h : ofLine line room = .ok r) : Initialised r

/-- The values on the line of a page. -/
def values (r : WebSource) : List Value := ((lineFields r.site).values r).filterMap id

/-- Two pages are the same in every field, dictionaries taken as mappings. -/
structure SameAs (r s : WebSource) : Prop where
  site : r.site = s.site
  initialized : r.initialized = s.initialized
  type : r.type = s.type
  fields : (lineFields r.site).Same r s

/-- A page of the site that has been filled. -/
structure Own (site : Site) (name : String) (r : WebSource) : Prop where
  site_eq : r.site = site
  initialized_eq : r.initialized = .bool true
  type_eq : r.type = .str name

section
variable (hname : site.name? = some name)
include hname

theorem lineFields_eq : lineFields site = fields ++ [typeField] := by
  cases site with
  | any => cases hname
  | regExLib | stackOverflow => rfl

/-- A page is read from a line that names its site, unless a needed key is missing. -/
theorem read_cases {line : Value} {ms : Members} {room : ℕ}
    (h : Json.ofLine line room = .ok (.object ms)) (htype : findMember ms "type" = some (.str name)) :
    ReadsFields (lineFields site) (Own site name) ms ((read line room).made (empty site)) := by
  have hpresent : (Value.object ms).has (.str "type") = .ok true := by
    rw [has_object, htype]
    rfl
  have hvalue : typeField.value ms = .str name := by
    rw [DataField.value, typeField, htype, Option.getD_some]
  rw [Edit.made, read, run_modify_bind, run_lift_bind h, lineFields_eq hname]
  rcases fields.readFrom_object ms ({ empty site with initialized := .bool true }) with
    hrun | ⟨f, hf, hnone, r, hrun⟩
  · rw [run_bind_of_ok hrun, run_lift_bind hpresent, if_pos rfl]
    rcases DataFields.readFrom_object [typeField] ms (fields.setAll (fields.map (·.value ms))
      { empty site with initialized := .bool true }) with hrun | ⟨f, hf, hnone, r, -⟩
    · rw [hrun]
      exact .inl ⟨_, rfl, ⟨rfl, rfl, hvalue⟩, rfl⟩
    · rw [mem_singleton.mp hf] at hnone
      cases hnone.symm.trans htype
  · rw [run_bind, hrun]
    exact .inr ⟨f, mem_append_left _ hf, hnone, rfl⟩

theorem format :
    Format (fun room r => toLine r room) (fun room line => ofLine line room) name
      (lineFields site) (Own site name) where
  nodup := by
    rw [lineFields_eq hname]
    decide
  toLine_eq := by
    intro r hown room
    rw [toLine, hown.initialized_eq, hown.site_eq]
    rfl
  ofLine_eq := by
    intro room line ms h htype
    rw [ofLine, byType_known h htype (Site.ofName?_of_name? hname)]
    exact read_cases hname h htype

/-- A complete page is read back from its line. -/
theorem kept (hown : Own site name r)
    (hdata : ∀ e ∈ (lineFields site).entries r, ∃ v, e.2 = some v ∧ v.IsJson) :
    KeptByLine (fun room r => toLine r room) (fun room line => ofLine line room) r r.values
      r.SameAs := by
  have htype : ("type", some (.str name)) ∈ (lineFields site).entries r := by
    rw [lineFields_eq hname, DataFields.entries, map_append, ← hown.type_eq]
    exact mem_append_right _ mem_cons_self
  have hkept := (format hname).kept hown hdata htype
  obtain rfl := hown.site_eq
  refine ⟨hkept.line, fun room line hl room' hroom => ?_⟩
  obtain ⟨s, hs, ⟨hown', hsame⟩, hl'⟩ := hkept.back room line hl room' hroom
  refine ⟨s, hs, ⟨hown'.site_eq.symm, ?_, ?_, hsame⟩, hl'⟩
  · rw [hown.initialized_eq, hown'.initialized_eq]
  · rw [hown.type_eq, hown'.type_eq]

end

theorem of_ofLine {line : Value} {room : ℕ} (h : ofLine line room = .ok r) :
    ∃ site name n, site.name? = some name ∧ room = n + 1 ∧ Own site name r ∧
      ∀ e ∈ (lineFields site).entries r, ∃ v, e.2 = some v ∧ v.FitsRoom n := by
  obtain ⟨ms, v, site, hobj, hfits, htype, hsite, h⟩ := exists_kind_of_byType h
  obtain ⟨n, rfl⟩ := hfits.exists_room
  obtain ⟨name, hname, rfl⟩ := Site.of_ofName? hsite
  rcases read_cases hname hobj htype with ⟨r', hr, hown, hentries⟩ | ⟨f, -, -, herror⟩
  · cases hr.symm.trans h
    refine ⟨site, name, n, hname, rfl, hown, fits_of_read ?_ hfits hentries⟩
    rw [lineFields_eq hname]
    simp [fields, typeField]
  · cases herror.symm.trans h

theorem Initialised.kept (h : r.Initialised) :
    KeptByLine (fun room r => toLine r room) (fun room line => ofLine line room) r r.values
      r.SameAs := by
  cases h with
  | @filled site uri uriAliases patterns _ hsite hdata h =>
    obtain ⟨name, hname⟩ : ∃ name, site.name? = some name := by
      cases site with
      | any => exact absurd rfl hsite
      | regExLib | stackOverflow => exact ⟨_, rfl⟩
    have htype : (empty site).type = .str name := by simp [empty, hname]
    cases h
    refine WebSource.kept hname ⟨rfl, rfl, htype⟩ ?_
    rw [lineFields_eq hname]
    simp [DataFields.entries, fields, typeField, htype, hdata]
  | read h =>
    obtain ⟨site, name, n, hname, -, hown, hfits⟩ := of_ofLine h
    exact WebSource.kept hname hown fun e he => (hfits e he).imp fun v hv => ⟨hv.1, hv.2.isJson⟩

theorem exists_line_of_ofLine {line : Value} {room : ℕ} (h : ofLine line room = .ok r) :
    ∃ line', r.toLine room = .ok line' := by
  obtain ⟨site, name, n, hname, rfl, hown, hfits⟩ := of_ofLine h
  refine ((Initialised.read h).kept.line n).mpr fun v hv => ?_
  rw [values, hown.site_eq] at hv
  exact within_of_fits hfits hv

theorem checksType : ChecksType (fun room line => ofLine line room) Site.names := by
  refine checksType_byType (fun v => ?_) fun {room line ms v site} h htype hsite => ?_
  · constructor
    · rintro ⟨site, hsite⟩
      obtain ⟨name, hname, rfl⟩ := Site.of_ofName? hsite
      exact ⟨name, Site.mem_names.mpr ⟨site, hname⟩, rfl⟩
    · rintro ⟨name, hmem, rfl⟩
      obtain ⟨site, hname⟩ := Site.mem_names.mp hmem
      exact ⟨site, Site.ofName?_of_name? hname⟩
  · obtain ⟨name, hname, rfl⟩ := Site.of_ofName? hsite
    rcases read_cases hname h htype with ⟨r, hr, -⟩ | ⟨f, -, -, herror⟩
    · exact .inl ⟨r, hr⟩
    · exact .inr ⟨_, herror⟩

end WebSource

/-! ### The round trip -/

/-- The name of a module, with a fraction inside. -/
def nestedName : Value :=
  .object [("scope", .str "@a"), ("names", .list [.double (.finite false (2 ^ 52) (-53)), .null])]

/-- A module with this name and without a version. -/
def nestedModule : Module :=
  (Module.fields .npm).setAll [.str "npm", nestedName, noVersion, unknownCount,
    .str "https://a.org", noVcsUri, unknownCount, unknownCount, noTarball, .bool true, .int 7]
    { kind := .npm, initialized := .bool true }

/-- A module whose name is a number of too many digits. -/
def longModule : Module :=
  (Module.fields .godoc).setAll [.str "godoc", .int (10 ^ Json.digitLimit), noVersion, unknownCount,
    noRegistryUri, .str "", unknownCount, unknownCount, noTarball]
    { kind := .godoc, initialized := .bool true }

end Publish
end RegexCorpus
