import Konfig.Flamediff.Pprof

/-!
# Reading pprof back

What a reader of the profile sees: the bytes are decoded by the wire format, and the location
ids of a sample are looked up in the tables of locations, functions and strings.

* `Pprof.decode`: the message that the bytes stand for.
* `Tables.Sound`: what the tables say of every name, kept by each name that is added.
* `stackOf_bar`: the walk from a bar finds the ids of the names on its path.
* `toPprof_faithful`: a forest, written as a flamebearer and converted, is read back as it is.
-/

namespace Konfig.Flamediff

open Lib Lib.Protobuf

/-! ### The reader -/

namespace Pprof

structure Sample where
  locationIds : List ℕ
  values : List ℤ

structure Location where
  id : ℕ
  functionIds : List ℕ

structure Function where
  id : ℕ
  name : ℕ

/-- The parts of a profile that say where its samples are. -/
structure Profile where
  samples : List Sample
  locations : List Location
  functions : List Function
  strings : List String

/-- An `int64` as the wire has it. -/
def asInt64 (n : ℕ) : ℤ := if n < 2 ^ 63 then n else n - 2 ^ 64

def decodeSample (bytes : Bytes) : Option Sample := do
  let fields ← Protobuf.decode bytes
  let locationIds ← numberList 1 fields
  let values ← numberList 2 fields
  return { locationIds, values := values.map asInt64 }

def decodeLocation (bytes : Bytes) : Option Location := do
  let fields ← Protobuf.decode bytes
  let lines ← (messages 4 fields).mapM Protobuf.decode
  return { id := number 1 fields, functionIds := lines.map (number 1) }

def decodeFunction (bytes : Bytes) : Option Function := do
  let fields ← Protobuf.decode bytes
  return { id := number 1 fields, name := number 2 fields }

def decode (bytes : Bytes) : Option Profile := do
  let fields ← Protobuf.decode bytes
  let samples ← (messages 2 fields).mapM decodeSample
  let locations ← (messages 4 fields).mapM decodeLocation
  let functions ← (messages 5 fields).mapM decodeFunction
  let strings ← (messages 6 fields).mapM fromUtf8
  return { samples, locations, functions, strings }

/-- The name of a function. -/
def Profile.functionName (p : Profile) (id : ℕ) : Option String := do
  let f ← p.functions.find? fun f => f.id = id
  p.strings[f.name]?

/-- The names at a location. -/
def Profile.locationNames (p : Profile) (id : ℕ) : Option (List String) := do
  let l ← p.locations.find? fun l => l.id = id
  l.functionIds.mapM p.functionName

/-- The names on the stack of a sample, and its values. -/
def Profile.resolve (p : Profile) (s : Sample) : Option (List String × List ℤ) := do
  let names ← s.locationIds.mapM p.locationNames
  return (names.flatten, s.values)

end Pprof

theorem mapM_map_some {α β γ : Type} {f : β → Option γ} {g : α → β} {v : α → γ} {l : List α}
    (h : ∀ a ∈ l, f (g a) = some (v a)) : (l.map g).mapM f = some (l.map v) := by
  induction l with
  | nil => rfl
  | cons a l ih =>
    rw [List.map_cons, List.mapM_cons, h a List.mem_cons_self, ih fun b hb => h b (List.mem_cons_of_mem _ hb)]
    rfl

/-! ### Single messages -/

/-- The fields of a sample. -/
def sampleFields (stack : List ℕ) (value : ℕ) : List Field := [(1, .bytes (pack stack)), (2, .bytes (pack [value]))]

theorem decodeSample_encode (stack : List ℕ) (value : ℕ) :
    Pprof.decodeSample (encode (sampleFields stack value)) = some ⟨stack, [Pprof.asInt64 value]⟩ := by
  simp [Pprof.decodeSample, decode_encode, sampleFields, numberList, unpack_pack]

theorem asInt64_asUnsigned {x : ℤ} (hlow : -2 ^ 63 ≤ x) (hhigh : x < 2 ^ 63) :
    Pprof.asInt64 (asUnsigned x) = x := by
  unfold Pprof.asInt64 asUnsigned
  split <;> omega

/-- The fields of the function and of the location of a name. -/
def functionFields (id name : ℕ) : List Field := [(1, .varint id), (2, .varint name), (4, .varint name)]

def locationFields (id : ℕ) : List Field := [(1, .varint id), (4, .bytes (encode [(1, .varint id)]))]

theorem decodeFunction_encode (id name : ℕ) :
    Pprof.decodeFunction (encode (functionFields id name)) = some ⟨id, name⟩ := by
  simp [Pprof.decodeFunction, decode_encode, functionFields, number, numbers]

theorem decodeLocation_encode (id : ℕ) :
    Pprof.decodeLocation (encode (locationFields id)) = some ⟨id, [id]⟩ := by
  simp [Pprof.decodeLocation, decode_encode, locationFields, number, numbers, messages]

/-! ### The tables -/

/-- The index of a name that is in the string table. -/
def Interner.index (t : Interner) (s : String) : ℕ := (t.idx s).getD 0

theorem Interner.Extends.index_eq {t u : Interner} (h : t.Extends u) {s : String} (hs : (t.idx s).isSome) :
    u.index s = t.index s := by
  obtain ⟨i, hi⟩ := Option.isSome_iff_exists.mp hs
  rw [index, index, h s i hi, hi]

/-- What the tables say of every name. -/
structure Tables.Sound (t : Tables) : Prop where
  ids : (t.nameLoc.map Prod.snd).Nodup
  bound : ∀ e ∈ t.nameLoc, e.2 ≤ t.nameLoc.length
  interned : ∀ e ∈ t.nameLoc, (t.strings.idx e.1).isSome
  functions : t.functions =
    encode (t.nameLoc.map fun e => (5, .bytes (encode (functionFields e.2 (t.strings.index e.1)))))
  locations : t.locations = encode (t.nameLoc.map fun e => (4, .bytes (encode (locationFields e.2))))

theorem Tables.sound_new : Tables.new.Sound where
  ids := List.nodup_nil
  bound _ h := absurd h List.not_mem_nil
  interned _ h := absurd h List.not_mem_nil
  functions := rfl
  locations := rfl

theorem Tables.mem_of_locationId {t : Tables} {name : String} {id : ℕ} (h : t.locationId name = some id) :
    (name, id) ∈ t.nameLoc := by
  obtain ⟨e, he, rfl⟩ := Option.map_eq_some_iff.mp h
  have hname : e.1 = name := by simpa using List.find?_some he
  rw [← hname]
  exact List.mem_of_find?_eq_some he

/-- A name that is added has a location, and no location changes. -/
theorem Tables.locationId_addName (t : Tables) (name : String) :
    ((t.addName name).locationId name).isSome ∧
      ∀ n id, t.locationId n = some id → (t.addName name).locationId n = some id := by
  unfold Tables.addName
  split
  · next h => exact ⟨h, fun _ _ hid => hid⟩
  · refine ⟨?_, fun n id hid => ?_⟩
    · simp [Tables.locationId, List.find?_append]
    · obtain ⟨e, he, rfl⟩ := Option.map_eq_some_iff.mp hid
      simp [Tables.locationId, List.find?_append, he]

theorem Tables.extends_addName (t : Tables) (name : String) : t.strings.Extends (t.addName name).strings := by
  unfold Tables.addName
  split
  · exact fun _ _ h => h
  · exact t.strings.extends_get name

theorem Tables.Sound.addName {t : Tables} (h : t.Sound) (name : String) : (t.addName name).Sound := by
  unfold Tables.addName
  split
  · exact h
  · have hext := t.strings.extends_get name
    have hidx := (t.strings.get_spec name).2
    have hindex : ∀ e ∈ t.nameLoc, (t.strings.get name).2.index e.1 = t.strings.index e.1 := fun e he =>
      hext.index_eq (h.interned e he)
    have hnew : (t.strings.get name).2.index name = (t.strings.get name).1 := by
      rw [Interner.index, hidx, Option.getD_some]
    refine ⟨?_, fun e he => ?_, fun e he => ?_, ?_, ?_⟩
    · rw [List.map_append, List.nodup_append]
      refine ⟨h.ids, List.nodup_singleton _, fun id hid id' hid' => ?_⟩
      obtain ⟨e, he, rfl⟩ := List.mem_map.mp hid
      obtain rfl := List.mem_singleton.mp hid'
      exact (Nat.lt_succ_of_le (h.bound e he)).ne
    · rw [List.length_append, List.length_singleton]
      rcases List.mem_append.mp he with he | he
      · exact (h.bound e he).trans (Nat.le_succ _)
      · exact (List.mem_singleton.mp he) ▸ le_rfl
    · rcases List.mem_append.mp he with he | he
      · obtain ⟨i, hi⟩ := Option.isSome_iff_exists.mp (h.interned e he)
        exact Option.isSome_iff_exists.mpr ⟨i, hext _ _ hi⟩
      · obtain rfl := List.mem_singleton.mp he
        exact Option.isSome_iff_exists.mpr ⟨_, hidx⟩
    · have hold : t.nameLoc.map (fun e => ((5, .bytes (encode (functionFields e.2
            ((t.strings.get name).2.index e.1)))) : Field)) =
          t.nameLoc.map fun e => (5, .bytes (encode (functionFields e.2 (t.strings.index e.1)))) :=
        List.map_congr_left fun e he => by rw [hindex e he]
      simp only [List.map_append, encode_append, hold, ← h.functions, List.map_cons, List.map_nil, hnew]
      simp [lfield_eq, vfield_eq, encode, functionFields]
    · simp only [List.map_append, encode_append, ← h.locations]
      simp [lfield_eq, vfield_eq, encode, locationFields]

/-- Every name of the bars has a location in the end. -/
theorem Flamebearer.addBars_spec (fb : Flamebearer) {bars : List Bar}
    (hnames : ∀ bar ∈ bars, bar.nameIdx < fb.names.length) :
    ∀ {t : Tables}, t.Sound → ∃ t', fb.addBars t bars = some t' ∧ t'.Sound ∧
      t.strings.Extends t'.strings ∧ (∀ n id, t.locationId n = some id → t'.locationId n = some id) ∧
      ∀ bar ∈ bars, ∃ name, fb.names[bar.nameIdx]? = some name ∧ (t'.locationId name).isSome := by
  induction bars with
  | nil => exact fun ht => ⟨_, rfl, ht, fun _ _ h => h, fun _ _ h => h, fun _ h => absurd h List.not_mem_nil⟩
  | cons bar bars ih =>
    intro t ht
    obtain ⟨name, hbar⟩ : ∃ name, fb.names[bar.nameIdx]? = some name :=
      ⟨_, List.getElem?_eq_getElem (hnames bar List.mem_cons_self)⟩
    obtain ⟨hsome, hkeep⟩ := t.locationId_addName name
    obtain ⟨t', hadd, hsound, hext, hkeep', hall⟩ :=
      ih (fun b hb => hnames b (List.mem_cons_of_mem _ hb)) (ht.addName name)
    refine ⟨t', ?_, hsound, (t.extends_addName name).trans hext, fun n id h => hkeep' n id (hkeep n id h),
      fun b hb => ?_⟩
    · rw [addBars, List.foldlM_cons, hbar]
      exact hadd
    · rcases List.mem_cons.mp hb with rfl | hb
      · obtain ⟨id, hid⟩ := Option.isSome_iff_exists.mp hsome
        exact ⟨_, hbar, Option.isSome_iff_exists.mpr ⟨id, hkeep' _ _ hid⟩⟩
      · exact hall b hb

/-! ### Stacks -/

variable {k : ℕ}

/-- The walk from a bar finds the ids of the names on its path. -/
theorem stackOf_bar {loc : ℕ → Option ℕ} {id : Fin k → ℕ} {above : List (List (Placed k))} :
    ∀ {level : List (Placed k)}, Rooted above level →
      (∀ l ∈ level :: above, ∀ p ∈ l, loc p.name = some (id p.name)) → ∀ q ∈ level,
      stackOf loc (above.map (List.map Placed.bar)) q.bar = some (q.path.map id) := by
  induction above with
  | nil =>
    intro level hroot hloc q hq
    obtain ⟨hparent, habove⟩ := hroot q hq
    have hname : loc q.bar.nameIdx = some (id q.name) := hloc level List.mem_cons_self q hq
    have hbar : q.bar.parent = none := hparent
    rw [List.map_nil, stackOf, hname, hbar, Placed.path, habove]
    rfl
  | cons upper above ih =>
    rintro level ⟨hparents, hroot⟩ hloc q hq
    obtain ⟨j, p, hparent, hp, habove⟩ := hparents q hq
    have hname : loc q.bar.nameIdx = some (id q.name) := hloc level List.mem_cons_self q hq
    have hbar : q.bar.parent = some j := hparent
    have hget : (upper.map Placed.bar)[j]? = some p.bar := by rw [List.getElem?_map, hp, Option.map_some]
    have hrest := ih hroot (fun l hl => hloc l (List.mem_cons_of_mem _ hl)) p (List.mem_of_getElem? hp)
    rw [List.map_cons, stackOf, hname, hbar, Placed.path, habove]
    simp only [Option.bind_eq_bind, Option.bind_some, hget, hrest, Option.pure_def, List.map_cons]

/-! ### Samples -/

/-- The samples that a list of calls stands for: those with self time. -/
def sampled (calls : List (Placed k)) : List (Placed k) := calls.filter fun p => 0 < p.self_

/-- The bytes of the sample of a call. -/
def sampleBytes (id : Fin k → ℕ) (scale : ℤ) (p : Placed k) : Bytes :=
  encode (sampleFields (p.path.map id) (asUnsigned (p.self_ * scale)))

/-- The samples of a profile as fields. -/
def samplesOf (id : Fin k → ℕ) (scale : ℤ) (calls : List (Placed k)) : List Field :=
  (sampled calls).map fun p => (2, .bytes (sampleBytes id scale p))

theorem sampleBars_eq {loc : ℕ → Option ℕ} {id : Fin k → ℕ} {scale : ℤ} {above : List (List Bar)}
    {level : List (Placed k)} (hstack : ∀ p ∈ level, stackOf loc above p.bar = some (p.path.map id)) :
    sampleBars loc scale above (level.map Placed.bar) =
      some (encode (samplesOf id scale level)) := by
  induction level with
  | nil => rfl
  | cons p level ih =>
    have hrest := ih fun q hq => hstack q (List.mem_cons_of_mem _ hq)
    have hself : p.bar.self_ = p.self_ := rfl
    rw [List.map_cons, sampleBars, hrest, hstack p List.mem_cons_self, hself, samplesOf, samplesOf]
    by_cases hp : 0 < p.self_
    · have hcons : sampled (p :: level) = p :: sampled level := List.filter_cons_of_pos (by simpa using hp)
      rw [if_neg (not_le.mpr hp), hcons]
      simp [lfield_eq, packed_eq, encode, sampleBytes, sampleFields]
    · have hcons : sampled (p :: level) = sampled level := List.filter_cons_of_neg (by simpa using hp)
      rw [if_pos (not_lt.mp hp), hcons]
      rfl

theorem sampleLevels_eq {loc : ℕ → Option ℕ} {id : Fin k → ℕ} {scale : ℤ} (n : ℕ) :
    ∀ (above : List (List (Placed k))) (level : List (Placed k)), (∀ p ∈ level, p.Fits) →
      Rooted above level →
      (∀ l ∈ above ++ levelsFrom n level, ∀ p ∈ l, loc p.name = some (id p.name)) →
      sampleLevels loc scale (above.map (List.map Placed.bar))
          ((levelsFrom n level).map (List.map Placed.bar)) =
        some (encode (samplesOf id scale (levelsFrom n level).flatten)) := by
  induction n with
  | zero => exact fun _ _ _ _ _ => rfl
  | succ n ih =>
    intro above level hfits hroot hloc
    have hlevel : ∀ l ∈ level :: above, ∀ p ∈ l, loc p.name = some (id p.name) := by
      intro l hl
      rcases List.mem_cons.mp hl with rfl | hl
      · exact hloc l (List.mem_append_right _ List.mem_cons_self)
      · exact hloc l (List.mem_append_left _ hl)
    have hrest := ih (level :: above) (childrenFrom 0 level) (fun q hq => (mem_childrenFrom hfits hq).1)
      (hroot.children hfits) (fun l hl => by
        rcases List.mem_append.mp hl with hl | hl
        · exact hlevel l hl
        · exact hloc l (List.mem_append_right _ (List.mem_cons_of_mem _ hl)))
    rw [levelsFrom, List.map_cons, sampleLevels, sampleBars_eq (stackOf_bar hroot hlevel)]
    rw [List.map_cons] at hrest
    simp [hrest, samplesOf, sampled, encode_append]

/-! ### The whole profile -/

/-- The fields of a profile. -/
def Tables.fields (t : Tables) (samples : List Field) (valueType periodType : Bytes) (period : ℕ)
    (strings : List String) : List Field :=
  (1, .bytes valueType) :: (samples ++
    t.nameLoc.map (fun e => (5, .bytes (encode (functionFields e.2 (t.strings.index e.1))))) ++
    t.nameLoc.map (fun e => (4, .bytes (encode (locationFields e.2)))) ++
    [(11, .bytes periodType), (12, .varint period)] ++
    strings.map fun s => (6, .bytes (utf8 s)))

theorem Tables.messages_fields (t : Tables) (samples : List Field) (valueType periodType : Bytes) (period : ℕ)
    (strings : List String) (k : ℕ) :
    messages k (t.fields samples valueType periodType period strings) =
      (if 1 = k then [valueType] else []) ++ (messages k samples ++
        (if 5 = k then t.nameLoc.map fun e => encode (functionFields e.2 (t.strings.index e.1)) else []) ++
        (if 4 = k then t.nameLoc.map fun e => encode (locationFields e.2) else []) ++
        (if 11 = k then [periodType] else []) ++
        (if 6 = k then strings.map utf8 else [])) := by
  simp only [fields, messages_cons_bytes, messages_cons_varint, messages_append, messages_map, messages_nil,
    List.append_nil]

/-- The bytes are those of the samples and of the tables; the string table has not lost a
name. -/
theorem Flamebearer.toPprof_eq {fb : Flamebearer} {ns : ℤ → ℤ} {t : Tables} {samples : List Field}
    (hadd : fb.addBars .new fb.decodeLevels.flatten = some t) (ht : t.Sound)
    (hsamples : sampleLevels (fun nameIdx => do t.locationId (← fb.names[nameIdx]?)) (fb.sampleType ns).scale
      [] fb.decodeLevels = some (encode samples)) :
    ∃ (strings : Interner) (valueType periodType : Bytes), t.strings.Extends strings ∧ fb.toPprof ns =
      some (encode (t.fields samples valueType periodType (fb.sampleType ns).period strings.strings)) := by
  set st := fb.sampleType ns
  let s1 := t.strings.get st.type
  let s2 := s1.2.get st.unit
  let s3 := s2.2.get st.type
  let s4 := s3.2.get st.unit
  refine ⟨s4.2, vfield 1 s1.1 ++ vfield 2 s2.1, vfield 1 s3.1 ++ vfield 2 s4.1, ?_, ?_⟩
  · exact (((t.strings.extends_get _).trans (s1.2.extends_get _)).trans (s2.2.extends_get _)).trans
      (s3.2.extends_get _)
  · rw [Flamebearer.toPprof, hadd]
    simp only [Option.bind_eq_bind, Option.bind_some] at hsamples ⊢
    rw [hsamples, ht.functions, ht.locations]
    simp [Tables.fields, encode, lfield_eq, vfield_eq, List.flatMap_map, s1, s2, s3, s4, st]

/-- What is read of the tables. -/
def Tables.profile (t : Tables) (samples : List Pprof.Sample) (strings : Interner) : Pprof.Profile where
  samples
  locations := t.nameLoc.map fun e => ⟨e.2, [e.2]⟩
  functions := t.nameLoc.map fun e => ⟨e.2, t.strings.index e.1⟩
  strings := strings.strings

/-- A location stands for its name. -/
theorem Tables.locationNames_profile {t : Tables} (ht : t.Sound) {strings : Interner}
    (hext : t.strings.Extends strings) (samples : List Pprof.Sample) {name : String} {id : ℕ}
    (h : (name, id) ∈ t.nameLoc) : (t.profile samples strings).locationNames id = some [name] := by
  have hfind : t.nameLoc.find? (fun e => e.2 = id) = some (name, id) := find?_of_nodup ht.ids h
  have hloc : (t.profile samples strings).locations.find? (fun l => l.id = id) = some ⟨id, [id]⟩ := by
    rw [profile, List.find?_map]
    exact congrArg _ hfind
  have hfun : (t.profile samples strings).functions.find? (fun f => f.id = id) =
      some ⟨id, t.strings.index name⟩ := by
    rw [profile, List.find?_map]
    exact congrArg _ hfind
  have hstring : strings.strings[t.strings.index name]? = some name := by
    obtain ⟨i, hi⟩ := Option.isSome_iff_exists.mp (ht.interned _ h)
    rw [Interner.index, hi, Option.getD_some]
    exact (strings.idx_iff _ _).mp (hext _ _ hi)
  have hname : (t.profile samples strings).functionName id = some name := by
    rw [Pprof.Profile.functionName, hfun]
    exact hstring
  rw [Pprof.Profile.locationNames, hloc]
  simp [hname]

/-- The sample of a call, as it is read. -/
def readSample (id : Fin k → ℕ) (scale : ℤ) (p : Placed k) : Pprof.Sample :=
  ⟨p.path.map id, [Pprof.asInt64 (asUnsigned (p.self_ * scale))]⟩

/-- The samples and the tables are read as they are. -/
theorem Tables.decode_fields (t : Tables) (id : Fin k → ℕ) (scale : ℤ) (calls : List (Placed k))
    (valueType periodType : Bytes) (period : ℕ) (strings : Interner) :
    Pprof.decode (encode (t.fields (samplesOf id scale calls) valueType periodType period strings.strings)) =
      some (t.profile ((sampled calls).map (readSample id scale)) strings) := by
  have hsamples : ((sampled calls).map (sampleBytes id scale)).mapM Pprof.decodeSample =
      some ((sampled calls).map (readSample id scale)) := mapM_map_some fun p _ => decodeSample_encode _ _
  have hlocations := mapM_map_some (l := t.nameLoc) fun e _ => decodeLocation_encode e.2
  have hfunctions := mapM_map_some (l := t.nameLoc) fun e _ =>
    decodeFunction_encode e.2 (t.strings.index e.1)
  have hstrings := mapM_map_some (l := strings.strings) fun s _ => fromUtf8_utf8 s
  rw [List.map_id'] at hstrings
  rw [Pprof.decode, decode_encode]
  simp [Tables.messages_fields, samplesOf, messages_map, hsamples, hlocations, hfunctions, hstrings,
    Tables.profile]

/-- Every call is resolved to the names on its path and its value. -/
theorem Tables.resolve_readSample {t : Tables} (ht : t.Sound) {strings : Interner}
    (hext : t.strings.Extends strings) (samples : List Pprof.Sample) {names : Fin k → String} {id : Fin k → ℕ}
    {scale : ℤ} {p : Placed k} (hpath : ∀ name ∈ p.path, (names name, id name) ∈ t.nameLoc)
    (hlow : -2 ^ 63 ≤ p.self_ * scale) (hhigh : p.self_ * scale < 2 ^ 63) :
    (t.profile samples strings).resolve (readSample id scale p) =
      some (p.path.map names, [p.self_ * scale]) := by
  have hnames : (p.path.map id).mapM (t.profile samples strings).locationNames =
      some (p.path.map fun name => [names name]) :=
    mapM_map_some fun name hname => Tables.locationNames_profile ht hext samples (hpath name hname)
  have hflat : (p.path.map fun name => [names name]).flatten = p.path.map names := by
    rw [← List.flatMap_def, List.map_eq_flatMap]
  rw [Pprof.Profile.resolve, readSample, hnames, asInt64_asUnsigned hlow hhigh]
  simp [hflat]

/-- What is written of a forest is read as its calls. -/
theorem toPprof_reads (fb : Flamebearer) (ns : ℤ → ℤ) (f : Forest fb.names.length)
    (hlevels : fb.levels = f.encode) (hf : f.Fits) (hnames : fb.names.length ≤ 2 ^ 63)
    (hrange : ∀ c ∈ f.calls [], 0 < c.self_ →
      -2 ^ 63 ≤ c.self_ * (fb.sampleType ns).scale ∧ c.self_ * (fb.sampleType ns).scale < 2 ^ 63) :
    ∃ bytes p, fb.toPprof ns = some bytes ∧ Pprof.decode bytes = some p ∧ p.strings[0]? = some "" ∧
      (p.samples.map p.resolve).Perm
        (((f.calls []).filter fun c => 0 < c.self_).map fun c =>
          some (c.path.map fb.names.get, [c.self_ * (fb.sampleType ns).scale])) := by
  have hdecode := decodeLevels_encode fb hnames hf hlevels
  set scale := (fb.sampleType ns).scale with hscale
  -- every name has a location
  have hvalid : ∀ bar ∈ fb.decodeLevels.flatten, bar.nameIdx < fb.names.length := by
    intro bar hbar
    rw [hdecode, Forest.bars, ← List.map_flatten] at hbar
    obtain ⟨p, -, rfl⟩ := List.mem_map.mp hbar
    exact p.name.isLt
  obtain ⟨t, hadd, ht, hnew, -, hall⟩ := fb.addBars_spec hvalid Tables.sound_new
  let id : Fin fb.names.length → ℕ := fun name => (t.locationId (fb.names.get name)).getD 0
  have hid : ∀ l ∈ f.levels, ∀ p ∈ l, t.locationId (fb.names.get p.name) = some (id p.name) := by
    intro l hl p hp
    have hbar : p.bar ∈ fb.decodeLevels.flatten := by
      rw [hdecode, Forest.bars, ← List.map_flatten]
      exact List.mem_map_of_mem (List.mem_flatten.mpr ⟨l, hl, hp⟩)
    obtain ⟨name, hname, hsome⟩ := hall _ hbar
    have hget : fb.names[(p.name : ℕ)]? = some (fb.names.get p.name) := List.getElem?_eq_getElem p.name.isLt
    obtain rfl : fb.names.get p.name = name := Option.some.inj (hget.symm.trans hname)
    obtain ⟨i, hi⟩ := Option.isSome_iff_exists.mp hsome
    show _ = some ((t.locationId (fb.names.get p.name)).getD 0)
    rw [hi, Option.getD_some]
  have hfits : ∀ p ∈ f.roots, p.Fits := fun p hp => (mem_place hf hp).1
  have hsamples : sampleLevels (fun nameIdx => do t.locationId (← fb.names[nameIdx]?)) scale []
      fb.decodeLevels = some (encode (samplesOf id scale f.levels.flatten)) := by
    rw [hdecode]
    refine sampleLevels_eq f.height [] f.roots hfits (rooted_roots hf) fun l hl p hp => ?_
    have hget : fb.names[(p.name : ℕ)]? = some (fb.names.get p.name) := List.getElem?_eq_getElem p.name.isLt
    show fb.names[(p.name : ℕ)]?.bind t.locationId = _
    rw [hget]
    exact hid l hl p hp
  obtain ⟨strings, valueType, periodType, hext, hbytes⟩ := Flamebearer.toPprof_eq hadd ht hsamples
  refine ⟨_, _, hbytes, t.decode_fields id scale _ _ _ _ strings, ?_, ?_⟩
  · -- the empty string is there from the start
    have hempty : Tables.new.strings.idx "" = some 0 := rfl
    exact (strings.idx_iff _ _).mp (hext _ _ (hnew _ _ hempty))
  · have hpaths := path_levelsFrom (P := fun name => t.locationId (fb.names.get name) = some (id name))
      f.height f.roots hfits (fun p hp name hname => by
        rw [(rooted_roots hf p hp).2] at hname
        exact absurd hname List.not_mem_nil) hid
    have hresolve : ∀ p ∈ sampled f.levels.flatten,
        (t.profile ((sampled f.levels.flatten).map (readSample id scale)) strings).resolve (readSample id scale p) =
          some (p.path.map fb.names.get, [p.self_ * scale]) := by
      intro p hp
      obtain ⟨hmem, hpos⟩ := List.mem_filter.mp hp
      obtain ⟨l, hl, hpl⟩ := List.mem_flatten.mp hmem
      have hcall : p.call ∈ f.calls [] := (levels_perm f).mem_iff.mp (List.mem_map_of_mem hmem)
      obtain ⟨hlow, hhigh⟩ := hrange p.call hcall (of_decide_eq_true hpos)
      exact Tables.resolve_readSample ht hext _
        (fun name hname => Tables.mem_of_locationId (hpaths l hl p hpl name hname)) hlow hhigh
    have hread : ((sampled f.levels.flatten).map (readSample id scale)).map
        (t.profile ((sampled f.levels.flatten).map (readSample id scale)) strings).resolve =
        ((f.levels.flatten.map Placed.call).filter fun c => 0 < c.self_).map fun c =>
          some (c.path.map fb.names.get, [c.self_ * scale]) := by
      rw [List.map_map, List.filter_map, List.map_map]
      exact List.map_congr_left hresolve
    exact hread ▸ ((levels_perm f).filter _).map _

/-- **A forest is read back as it is.**  Written as a flamebearer, its levels are decoded with
every bar linked to its parent; the bytes of the profile decode, and the samples in it are
those of the calls with self time, each with the names from the call to its root. -/
theorem toPprof_faithful (fb : Flamebearer) (ns : ℤ → ℤ) (f : Forest fb.names.length)
    (hlevels : fb.levels = f.encode) (hf : f.Fits) (hnames : fb.names.length ≤ 2 ^ 63)
    (hrange : ∀ c ∈ f.calls [], 0 < c.self_ →
      -2 ^ 63 ≤ c.self_ * (fb.sampleType ns).scale ∧ c.self_ * (fb.sampleType ns).scale < 2 ^ 63) :
    fb.decodeLevels = f.bars ∧
    ∃ bytes p, fb.toPprof ns = some bytes ∧ Pprof.decode bytes = some p ∧
      p.strings[0]? = some "" ∧
      (p.samples.map p.resolve).Perm
        (((f.calls []).filter fun c => 0 < c.self_).map fun c =>
          some (c.path.map fb.names.get, [c.self_ * (fb.sampleType ns).scale])) := by
  exact ⟨decodeLevels_encode fb hnames hf hlevels, toPprof_reads fb ns f hlevels hf hnames hrange⟩

/-- Two leaves under one call, at a hundred samples a second. -/
theorem toPprof_faithful_two_leaves :
    let fb : Flamebearer := {
      names := ["total", "main", "compute", "render"]
      levels := [[0, 100, 0, 0], [0, 100, 0, 1], [0, 60, 60, 2, 0, 40, 40, 3]]
      numTicks := 100
      sampleRate := 100
      units := "samples" }
    let f : Forest 4 := .call 0 100 0 (.call 1 100 0 (.call 2 60 60 .nil (.call 3 40 40 .nil .nil)) .nil) .nil
    fb.decodeLevels = f.bars ∧
    ∃ bytes p, fb.toPprof (fun rate => 1000000000 / rate) = some bytes ∧ Pprof.decode bytes = some p ∧
      p.strings[0]? = some "" ∧
      (p.samples.map p.resolve).Perm
        (((f.calls []).filter fun c => 0 < c.self_).map fun c =>
          some (c.path.map fb.names.get, [c.self_ * (fb.sampleType fun rate => 1000000000 / rate).scale])) := by
  intro fb f
  refine toPprof_faithful fb _ f rfl ?_ (by decide) ?_
  · simp [Forest.Fits, Forest.width, f]
  · decide

end Konfig.Flamediff
