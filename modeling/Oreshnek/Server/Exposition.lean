import Oreshnek.Http.Dates
import Oreshnek.Server.EventLoop
import Oreshnek.Server.Histogram

/-!
# The metrics page

`Metrics::render` writes the counters in the text format of Prometheus: families of series,
each family with a `# HELP` and a `# TYPE` line in front of its samples. The text is read
back line by line (`render_read`): every series comes once, with the value of its counter.
How a `double` is written is a parameter.
-/

namespace Oreshnek

namespace Exposition

/-! ## Writing -/

/-- A family with its samples, each a series and its value. -/
structure Family where
  name : Bytes
  help : Bytes
  kind : Bytes
  samples : List (Bytes × Bytes)

def Family.lines (f : Family) : List Bytes :=
  (lit "# HELP " ++ f.name ++ 32 :: f.help) :: (lit "# TYPE " ++ f.name ++ 32 :: f.kind) ::
    f.samples.map fun s => s.1 ++ 32 :: s.2

/-- A family as it is written, each line with its newline. -/
def Family.text (f : Family) : Bytes := f.lines.flatMap (· ++ [10])

/-- The lambda `counter` of `render`. -/
def counter (name help : Bytes) (v : Nat) : Family :=
  ⟨name, help, lit "counter", [(name, toString_ v)]⟩

def gauge (name help : Bytes) (v : Int) : Family :=
  ⟨name, help, lit "gauge", [(name, toStringInt v)]⟩

section Render

variable {α : Type} [OfScientific α] (showDouble : α → Bytes)

/-- The series of a bucket. -/
def bucketSeries (le : Bytes) : Bytes :=
  lit "oreshnek_request_duration_seconds_bucket\x7ble=\"" ++ le ++ lit "\"\x7d"

/-- The histogram: cumulative buckets, then sum and count. -/
def histogram (h : Histogram.State α) : Family where
  name := lit "oreshnek_request_duration_seconds"
  help := lit "Request processing duration."
  kind := lit "histogram"
  samples := (List.finRange 9).map (fun i =>
      (bucketSeries (showDouble (Histogram.kBuckets i)), toString_ (h.buckets i))) ++
    [(bucketSeries (lit "+Inf"), toString_ h.count),
      (lit "oreshnek_request_duration_seconds_sum", showDouble h.sum),
      (lit "oreshnek_request_duration_seconds_count", toString_ h.count)]

/-- What `render` writes, family by family. -/
def families (m : Metrics) (h : Histogram.State α) : List Family :=
  [counter (lit "oreshnek_requests_total") (lit "Total HTTP requests received.") m.requestsTotal,
    ⟨lit "oreshnek_responses_total", lit "HTTP responses by status class.", lit "counter",
      [(lit "oreshnek_responses_total\x7bclass=\"2xx\"\x7d", toString_ m.responses2xx),
        (lit "oreshnek_responses_total\x7bclass=\"3xx\"\x7d", toString_ m.responses3xx),
        (lit "oreshnek_responses_total\x7bclass=\"4xx\"\x7d", toString_ m.responses4xx),
        (lit "oreshnek_responses_total\x7bclass=\"5xx\"\x7d", toString_ m.responses5xx)]⟩,
    counter (lit "oreshnek_connections_accepted_total") (lit "Total accepted connections.")
      m.connectionsAccepted,
    counter (lit "oreshnek_rate_limited_total") (lit "Requests rejected by the rate limiter.")
      m.rateLimitedTotal,
    counter (lit "oreshnek_handler_timeouts_total")
      (lit "Requests aborted by the handler timeout.") m.handlerTimeoutsTotal,
    counter (lit "oreshnek_load_shed_total")
      (lit "Requests rejected with 503 due to the in-flight handler cap.") m.loadShedTotal,
    gauge (lit "oreshnek_connections_active") (lit "Currently open connections.")
      m.connectionsActive,
    gauge (lit "oreshnek_workers_in_flight")
      (lit "Handlers dispatched to a worker and not yet completed.") m.workersInFlight,
    histogram showDouble h]

/-- `render`; the counters are what its loads return, one by one. -/
def render (m : Metrics) (h : Histogram.State α) : Bytes :=
  (families showDouble m h).flatMap Family.text

end Render

/-! ## Reading -/

/-- What a line of the format says. -/
inductive Line where
  | help (name text : Bytes)
  | type (name kind : Bytes)
  | sample (series value : Bytes)
deriving DecidableEq

/-- A text in front of its first blank, and behind it. -/
def firstWord (l : Bytes) : Bytes × Bytes :=
  (l.takeWhile (· ≠ 32), (l.dropWhile (· ≠ 32)).drop 1)

/-- The value of a sample stands behind the last blank. -/
def readLine (l : Bytes) : Line :=
  if lit "# HELP " <+: l then
    .help (firstWord (l.drop 7)).1 (firstWord (l.drop 7)).2
  else if lit "# TYPE " <+: l then
    .type (firstWord (l.drop 7)).1 (firstWord (l.drop 7)).2
  else
    .sample (firstWord l.reverse).2.reverse (firstWord l.reverse).1.reverse

/-- The lines of a text, without the end behind the last newline. -/
def readText (text : Bytes) : List Line := (text.splitOn 10).dropLast.map readLine

def samplesOf : List Line → List (Bytes × Bytes)
  | [] => []
  | .sample series value :: ls => (series, value) :: samplesOf ls
  | _ :: ls => samplesOf ls

/-! ## Lines -/

/-- Lines joined by line feeds, the last one behind all of them. -/
theorem intercalate_lines (ls : List Bytes) :
    [10].intercalate (ls ++ [[]]) = ls.flatMap (· ++ [(10 : UInt8)]) := by
  induction ls with
  | nil => rfl
  | cons l ls ih =>
      cases ls with
      | nil => simp [List.intercalate]
      | cons l' ls =>
          rw [List.flatMap_cons, ← ih, List.cons_append, List.cons_append]
          simp [List.intercalate]

/-- Lines without newlines are found again. -/
theorem splitOn_lines {ls : List Bytes} (h : ∀ l ∈ ls, (10 : UInt8) ∉ l) :
    ((ls.flatMap (· ++ [10])).splitOn 10).dropLast = ls := by
  rw [← intercalate_lines, List.splitOn_intercalate]
  · exact List.dropLast_concat
  · intro l hl
    rcases List.mem_append.1 hl with hl | hl
    · exact h l hl
    · rw [List.mem_singleton.1 hl]
      exact List.not_mem_nil
  · exact List.append_ne_nil_of_right_ne_nil _ (List.cons_ne_nil _ _)

/-- The first word ends at the first space. -/
theorem firstWord_append {w : Bytes} (h : (32 : UInt8) ∉ w) (rest : Bytes) :
    firstWord (w ++ 32 :: rest) = (w, rest) := by
  have hw : ∀ c ∈ w, decide (c ≠ 32) = true := by
    intro c hc
    exact decide_eq_true fun heq => h (heq ▸ hc)
  have htake : (32 :: rest).takeWhile (fun c : UInt8 => decide (c ≠ 32)) = [] := by simp
  have hdrop : (32 :: rest).dropWhile (fun c : UInt8 => decide (c ≠ 32)) = 32 :: rest := by simp
  unfold firstWord
  rw [List.takeWhile_append_of_pos hw, List.dropWhile_append_of_pos hw, htake, hdrop,
    List.append_nil]
  rfl

/-- A text without newlines and blanks. -/
def Word (w : Bytes) : Prop := 10 ∉ w ∧ 32 ∉ w

instance (w : Bytes) : Decidable (Word w) := inferInstanceAs (Decidable (_ ∧ _))

/-- A line of its own, which is not taken for a comment. -/
def Series (w : Bytes) : Prop := 10 ∉ w ∧ w.head? ≠ some 35 ∧ w ≠ []

instance (w : Bytes) : Decidable (Series w) := inferInstanceAs (Decidable (_ ∧ _ ∧ _))

/-- A family that can be written. -/
structure Family.Plain (f : Family) : Prop where
  name : Word f.name
  help : 10 ∉ f.help
  kind : 10 ∉ f.kind
  samples : ∀ s ∈ f.samples, Series s.1 ∧ Word s.2

/-- What a family says. -/
def Family.content (f : Family) : List Line :=
  .help f.name f.help :: .type f.name f.kind :: f.samples.map fun s => .sample s.1 s.2

/-- A sample is read back at its last blank. -/
theorem readLine_sample {series value : Bytes} (hseries : Series series) (hvalue : Word value) :
    readLine (series ++ 32 :: value) = .sample series value := by
  have hcomment : ∀ text : Bytes, text.head? = some 35 → ¬ text <+: series ++ 32 :: value := by
    intro text htext hstart
    cases series with
    | nil => exact hseries.2.2 rfl
    | cons c series =>
        cases text with
        | nil => cases htext
        | cons d text =>
            have hd : d = c := (List.cons_prefix_cons.1 hstart).1
            rw [hd] at htext
            exact hseries.2.1 htext
  have hreverse : (series ++ 32 :: value).reverse = value.reverse ++ 32 :: series.reverse := by
    simp
  unfold readLine
  rw [if_neg (hcomment (lit "# HELP ") (by decide)), if_neg (hcomment (lit "# TYPE ") (by decide)),
    hreverse, firstWord_append (by rw [List.mem_reverse]; exact hvalue.2)]
  simp

/-- No line of a family has a line feed in it. -/
theorem lines_plain {f : Family} (h : f.Plain) : ∀ l ∈ f.lines, (10 : UInt8) ∉ l := by
  have hhelp : (10 : UInt8) ∉ lit "# HELP " := by decide
  have htype : (10 : UInt8) ∉ lit "# TYPE " := by decide
  have hblank : (10 : UInt8) ≠ 32 := by decide
  intro l hl
  rcases List.mem_cons.1 hl with rfl | hl
  · simp only [List.mem_append, List.mem_cons, not_or]
    exact ⟨⟨hhelp, h.name.1⟩, hblank, h.help⟩
  rcases List.mem_cons.1 hl with rfl | hl
  · simp only [List.mem_append, List.mem_cons, not_or]
    exact ⟨⟨htype, h.name.1⟩, hblank, h.kind⟩
  · rcases List.mem_map.1 hl with ⟨s, hs, rfl⟩
    simp only [List.mem_append, List.mem_cons, not_or]
    exact ⟨(h.samples s hs).1.1, hblank, (h.samples s hs).2.1⟩

/-- Each line of a family is read as what it was written for. -/
theorem lines_read {f : Family} (h : f.Plain) : f.lines.map readLine = f.content := by
  have hhelp : ∀ rest, readLine (lit "# HELP " ++ f.name ++ 32 :: rest) = .help f.name rest := by
    intro rest
    unfold readLine
    rw [List.append_assoc, if_pos (List.prefix_append _ _)]
    have hdrop : (lit "# HELP " ++ (f.name ++ 32 :: rest)).drop 7 = f.name ++ 32 :: rest := rfl
    rw [hdrop, firstWord_append h.name.2]
  have htype : ∀ rest, readLine (lit "# TYPE " ++ f.name ++ 32 :: rest) = .type f.name rest := by
    intro rest
    have hnot : ¬ lit "# HELP " <+: lit "# TYPE " ++ (f.name ++ 32 :: rest) := by
      intro hstart
      have htake := List.prefix_of_prefix_length_le hstart (List.prefix_append _ _) le_rfl
      exact absurd htake (by decide)
    unfold readLine
    rw [List.append_assoc, if_neg hnot, if_pos (List.prefix_append _ _)]
    have hdrop : (lit "# TYPE " ++ (f.name ++ 32 :: rest)).drop 7 = f.name ++ 32 :: rest := rfl
    rw [hdrop, firstWord_append h.name.2]
  unfold Family.lines Family.content
  rw [List.map_cons, List.map_cons, hhelp, htype, List.map_map]
  congr 2
  apply List.map_congr_left
  intro s hs
  exact readLine_sample (h.samples s hs).1 (h.samples s hs).2

/-- Families are read back. -/
theorem readText_families {fs : List Family} (h : ∀ f ∈ fs, f.Plain) :
    readText (fs.flatMap Family.text) = fs.flatMap Family.content := by
  have htext : fs.flatMap Family.text = (fs.flatMap Family.lines).flatMap (· ++ [10]) := by
    rw [List.flatMap_assoc]
    rfl
  unfold readText
  rw [htext, splitOn_lines, List.map_flatMap]
  · apply List.flatMap_congr
    intro f hf
    exact lines_read (h f hf)
  · intro l hl
    rcases List.mem_flatMap.1 hl with ⟨f, hf, hl⟩
    exact lines_plain (h f hf) l hl

/-! ## The page -/

section Page

variable {α : Type} [OfScientific α]

/-- What is used of the way a `double` is written: it is one word, and the bounds of the
buckets stay different. -/
structure PlainNumbers (showDouble : α → Bytes) : Prop where
  line : ∀ x, 10 ∉ showDouble x
  word : ∀ x, 32 ∉ showDouble x
  bounds : Function.Injective fun i => showDouble (Histogram.kBuckets i)
  finite : ∀ i, showDouble (Histogram.kBuckets i) ≠ lit "+Inf"

theorem toString_word (n : Nat) : Word (toString_ n) := by
  constructor <;> intro hin
  · exact absurd ((toString_spec n).2.1 10 hin) (by decide)
  · exact absurd ((toString_spec n).2.1 32 hin) (by decide)

/-- A number is a word. -/
theorem toStringInt_word (n : Int) : Word (toStringInt n) := by
  have hword := toString_word n.natAbs
  unfold toStringInt
  split
  · constructor <;> intro hin
    · exact hword.1 (List.mem_of_ne_of_mem (by decide) hin)
    · exact hword.2 (List.mem_of_ne_of_mem (by decide) hin)
  · exact hword

/-- Different numbers are written differently. -/
theorem toStringInt_injective {m n : Int} (h : toStringInt m = toStringInt n) : m = n := by
  have hminus : ∀ k : Nat, ∀ rest : Bytes, 45 :: rest ≠ toString_ k := by
    intro k rest heq
    have hdigit := (toString_spec k).2.1 45 (heq ▸ List.mem_cons_self)
    exact absurd hdigit (by decide)
  unfold toStringInt at h
  split at h <;> split at h
  · have habs := toString_injective (List.cons.inj h).2
    omega
  · exact absurd h (hminus _ _)
  · exact absurd h.symm (hminus _ _)
  · have habs := toString_injective h
    omega

theorem plain_of {name help kind : Bytes} {samples : List (Bytes × Bytes)} (hname : Word name)
    (hhelp : 10 ∉ help) (hkind : 10 ∉ kind)
    (hsamples : ∀ s ∈ samples, Series s.1 ∧ Word s.2) :
    Family.Plain ⟨name, help, kind, samples⟩ := ⟨hname, hhelp, hkind, hsamples⟩

theorem sample_plain {series value : Bytes} (hseries : Series series) (hvalue : Word value) :
    ∀ s ∈ [(series, value)], Series s.1 ∧ Word s.2 := by
  intro s hs
  rw [List.mem_singleton.1 hs]
  exact ⟨hseries, hvalue⟩

theorem samples_plain {series value : Bytes} {rest : List (Bytes × Bytes)}
    (hseries : Series series) (hvalue : Word value)
    (hrest : ∀ s ∈ rest, Series s.1 ∧ Word s.2) :
    ∀ s ∈ (series, value) :: rest, Series s.1 ∧ Word s.2 :=
  List.forall_mem_cons.2 ⟨⟨hseries, hvalue⟩, hrest⟩

theorem counter_plain {name help : Bytes} (hname : Word name) (hhelp : 10 ∉ help)
    (hseries : Series name) (v : Nat) : (counter name help v).Plain :=
  plain_of hname hhelp (by decide) (sample_plain hseries (toString_word v))

theorem gauge_plain {name help : Bytes} (hname : Word name) (hhelp : 10 ∉ help)
    (hseries : Series name) (v : Int) : (gauge name help v).Plain :=
  plain_of hname hhelp (by decide) (sample_plain hseries (toStringInt_word v))

/-- The series of a bucket is written on one line. -/
theorem bucketSeries_plain {le : Bytes} (h : 10 ∉ le) : Series (bucketSeries le) := by
  have hfront : (10 : UInt8) ∉ lit "oreshnek_request_duration_seconds_bucket\x7ble=\"" := by
    decide
  have hback : (10 : UInt8) ∉ lit "\"\x7d" := by decide
  have hhead : (bucketSeries le).head? = some 111 := rfl
  constructor
  · unfold bucketSeries
    simp only [List.mem_append, not_or]
    exact ⟨⟨hfront, h⟩, hback⟩
  constructor
  · rw [hhead]
    decide
  · intro hnil
    rw [hnil] at hhead
    cases hhead

variable {showDouble : α → Bytes}

/-- So is the histogram. -/
theorem histogram_plain (hplain : PlainNumbers showDouble) (h : Histogram.State α) :
    (histogram showDouble h).Plain := by
  refine plain_of (by decide) (by decide) (by decide) ?_
  intro s hs
  rcases List.mem_append.1 hs with hs | hs
  · rcases List.mem_map.1 hs with ⟨i, -, rfl⟩
    exact ⟨bucketSeries_plain (hplain.line _), toString_word _⟩
  · refine samples_plain ?_ ?_ (samples_plain ?_ ?_ (sample_plain ?_ ?_)) s hs
    · exact bucketSeries_plain (by decide)
    · exact toString_word _
    · decide
    · exact ⟨hplain.line _, hplain.word _⟩
    · decide
    · exact toString_word _

/-- All families are written line by line. -/
theorem families_plain (hplain : PlainNumbers showDouble) (m : Metrics) (h : Histogram.State α) :
    ∀ f ∈ families showDouble m h, f.Plain := by
  intro f hf
  unfold families at hf
  simp only [List.mem_cons, List.not_mem_nil, or_false] at hf
  rcases hf with rfl | rfl | rfl | rfl | rfl | rfl | rfl | rfl | rfl
  · exact counter_plain (by decide) (by decide) (by decide) _
  · exact plain_of (by decide) (by decide) (by decide)
      (samples_plain (by decide) (toString_word _)
        (samples_plain (by decide) (toString_word _)
          (samples_plain (by decide) (toString_word _)
            (sample_plain (by decide) (toString_word _)))))
  · exact counter_plain (by decide) (by decide) (by decide) _
  · exact counter_plain (by decide) (by decide) (by decide) _
  · exact counter_plain (by decide) (by decide) (by decide) _
  · exact counter_plain (by decide) (by decide) (by decide) _
  · exact gauge_plain (by decide) (by decide) (by decide) _
  · exact gauge_plain (by decide) (by decide) (by decide) _
  · exact histogram_plain hplain h

/-! ## Nothing is lost -/

theorem samplesOf_append (ls ls' : List Line) :
    samplesOf (ls ++ ls') = samplesOf ls ++ samplesOf ls' := by
  induction ls with
  | nil => rfl
  | cons l ls ih => cases l <;> simp [samplesOf, ih]

/-- Comments are passed over when the samples are read. -/
theorem samplesOf_content (fs : List Family) :
    samplesOf (fs.flatMap Family.content) = fs.flatMap Family.samples := by
  have hsamples : ∀ ss : List (Bytes × Bytes),
      samplesOf (ss.map fun s => .sample s.1 s.2) = ss := by
    intro ss
    induction ss with
    | nil => rfl
    | cons s ss ih => simp [samplesOf, ih]
  induction fs with
  | nil => rfl
  | cons f fs ih =>
      rw [List.flatMap_cons, samplesOf_append, ih, List.flatMap_cons]
      unfold Family.content
      simp [samplesOf, hsamples]

theorem bucketSeries_injective {le le' : Bytes} (h : bucketSeries le = bucketSeries le') :
    le = le' :=
  List.append_cancel_left (List.append_cancel_right h)

/-- The series in front of the buckets. -/
def plainSeries : List Bytes :=
  [lit "oreshnek_requests_total", lit "oreshnek_responses_total\x7bclass=\"2xx\"\x7d",
    lit "oreshnek_responses_total\x7bclass=\"3xx\"\x7d",
    lit "oreshnek_responses_total\x7bclass=\"4xx\"\x7d",
    lit "oreshnek_responses_total\x7bclass=\"5xx\"\x7d",
    lit "oreshnek_connections_accepted_total", lit "oreshnek_rate_limited_total",
    lit "oreshnek_handler_timeouts_total", lit "oreshnek_load_shed_total",
    lit "oreshnek_connections_active", lit "oreshnek_workers_in_flight",
    lit "oreshnek_request_duration_seconds_sum", lit "oreshnek_request_duration_seconds_count"]

/-- The series of a bucket is none of the plain ones. -/
theorem bucketSeries_other (le : Bytes) : bucketSeries le ∉ plainSeries := by
  intro hin
  have hstart : lit "oreshnek_request_duration_seconds_b" <+: bucketSeries le := by
    unfold bucketSeries
    rw [List.append_assoc]
    exact (show lit "oreshnek_request_duration_seconds_b" <+:
      lit "oreshnek_request_duration_seconds_bucket\x7ble=\"" by decide).trans
      (List.prefix_append _ _)
  have hnone : ∀ w ∈ plainSeries, ¬ lit "oreshnek_request_duration_seconds_b" <+: w := by decide
  exact hnone _ hin hstart

/-- The samples of the page in the order of writing. -/
def samples (showDouble : α → Bytes) (m : Metrics) (h : Histogram.State α) :
    List (Bytes × Bytes) :=
  (families showDouble m h).flatMap Family.samples

/-- The series of a page, in some order. -/
theorem samples_series (m : Metrics) (h : Histogram.State α) :
    ((samples showDouble m h).map Prod.fst).Perm
      (plainSeries ++ ((List.finRange 9).map (fun i => showDouble (Histogram.kBuckets i)) ++
        [lit "+Inf"]).map bucketSeries) := by
  have hnames : (samples showDouble m h).map Prod.fst = plainSeries.take 11 ++
      ((List.finRange 9).map (fun i => showDouble (Histogram.kBuckets i)) ++
        [lit "+Inf"]).map bucketSeries ++ plainSeries.drop 11 := by
    simp [samples, families, histogram, counter, gauge, plainSeries, Function.comp_def]
  rw [hnames, List.append_assoc]
  conv_rhs => rw [← List.take_append_drop 11 plainSeries, List.append_assoc]
  exact List.Perm.append_left _ List.perm_append_comm

/-- No series comes twice. -/
theorem samples_nodup (hplain : PlainNumbers showDouble) (m : Metrics) (h : Histogram.State α) :
    ((samples showDouble m h).map Prod.fst).Nodup := by
  rw [(samples_series m h).nodup_iff, List.nodup_append']
  constructor
  · decide
  constructor
  · apply List.Nodup.map (fun _ _ => bucketSeries_injective)
    rw [List.nodup_append']
    constructor
    · exact (List.nodup_finRange 9).map hplain.bounds
    constructor
    · exact List.nodup_singleton _
    · intro le hin hinf
      rcases List.mem_map.1 hin with ⟨i, -, rfl⟩
      exact hplain.finite i (List.mem_singleton.1 hinf)
  · intro w hin hbucket
    rcases List.mem_map.1 hbucket with ⟨le, -, rfl⟩
    exact bucketSeries_other le hin

/-- The counters can be told from the samples. -/
theorem samples_injective {m m' : Metrics} {h h' : Histogram.State α}
    (heq : samples showDouble m h = samples showDouble m' h') :
    m = m' ∧ h.buckets = h'.buckets ∧ h.count = h'.count ∧
      showDouble h.sum = showDouble h'.sum := by
  have hinj : ∀ {a b : Nat}, toString_ a = toString_ b ↔ a = b :=
    ⟨toString_injective, congrArg toString_⟩
  have hinj' : ∀ {a b : Int}, toStringInt a = toStringInt b ↔ a = b :=
    ⟨toStringInt_injective, congrArg toStringInt⟩
  simp only [samples, families, histogram, counter, gauge, List.flatMap_cons, List.flatMap_nil,
    List.cons_append, List.nil_append, List.append_nil, List.cons.injEq,
    Prod.mk.injEq, true_and, hinj, hinj'] at heq
  rcases heq with ⟨h1, h2, h3, h4, h5, h6, h7, h8, h9, h10, h11, htail⟩
  have hbuckets := (List.append_inj htail (by simp)).1
  have hrest := (List.append_inj htail (by simp)).2
  rw [List.map_inj_left] at hbuckets
  simp only [List.cons.injEq, Prod.mk.injEq, true_and, hinj, and_true] at hrest
  constructor
  · cases m
    cases m'
    simp_all
  · refine ⟨?_, hrest.1, hrest.2.1⟩
    funext i
    exact toString_injective (Prod.mk.inj (hbuckets i (List.mem_finRange i))).2

/-- The page says what the counters are. -/
theorem render_read (hplain : PlainNumbers showDouble) (m : Metrics) (h : Histogram.State α) :
    readText (render showDouble m h) = (families showDouble m h).flatMap Family.content ∧
      ((samplesOf (readText (render showDouble m h))).map Prod.fst).Nodup ∧
      ∀ m' h', render showDouble m' h' = render showDouble m h →
        m' = m ∧ h'.buckets = h.buckets ∧ h'.count = h.count ∧
          showDouble h'.sum = showDouble h.sum := by
  have hread : ∀ m h, readText (render showDouble m h) =
      (families showDouble m h).flatMap Family.content :=
    fun m h => readText_families (families_plain hplain m h)
  have hsamples : ∀ m h, samplesOf (readText (render showDouble m h)) = samples showDouble m h := by
    intro m h
    rw [hread, samplesOf_content]
    rfl
  constructor
  · exact hread m h
  constructor
  · rw [hsamples]
    exact samples_nodup hplain m h
  · intro m' h' heq
    apply samples_injective
    rw [← hsamples, ← hsamples, heq]

end Page

/-- How an `ostream` writes some numbers. -/
def shownNumbers : List (ℚ × Bytes) :=
  [(0.0005, lit "0.0005"), (0.001, lit "0.001"), (0.005, lit "0.005"), (0.01, lit "0.01"),
    (0.05, lit "0.05"), (0.1, lit "0.1"), (0.5, lit "0.5"), (1, lit "1"), (5, lit "5"),
    (0.702, lit "0.702")]

def shown (x : ℚ) : Bytes := ((shownNumbers.find? (·.1 = x)).map Prod.snd).getD (lit "0")

/-- Numbers that are shown are words. -/
theorem shown_plain : PlainNumbers shown where
  line := by
    intro x
    have hall : ∀ p ∈ shownNumbers, (10 : UInt8) ∉ p.2 := by decide +kernel
    unfold shown
    cases hfind : shownNumbers.find? (·.1 = x) with
    | none => exact show (10 : UInt8) ∉ lit "0" by decide
    | some p => exact hall p (List.mem_of_find?_eq_some hfind)
  word := by
    intro x
    have hall : ∀ p ∈ shownNumbers, (32 : UInt8) ∉ p.2 := by decide +kernel
    unfold shown
    cases hfind : shownNumbers.find? (·.1 = x) with
    | none => exact show (32 : UInt8) ∉ lit "0" by decide
    | some p => exact hall p (List.mem_of_find?_eq_some hfind)
  bounds := by
    unfold Function.Injective
    decide +kernel
  finite := by decide +kernel

/-- One request of 0.702 s, and a client that is still connected. -/
def onePage : Metrics × Histogram.State ℚ :=
  ({ requestsTotal := 1, responses2xx := 1, connectionsAccepted := 3, connectionsActive := 1 },
    { buckets := ![0, 0, 0, 0, 0, 0, 0, 1, 1], count := 1, sum := 0.702, calls := [],
      added := [0.702] })

/-- The page after one request. -/
theorem render_read_one :
    .sample (lit "oreshnek_request_duration_seconds_bucket\x7ble=\"0.5\"\x7d") (lit "0") ∈
        readText (render shown onePage.1 onePage.2) ∧
      readText (render shown onePage.1 onePage.2) =
        (families shown onePage.1 onePage.2).flatMap Family.content ∧
      ((samplesOf (readText (render shown onePage.1 onePage.2))).map Prod.fst).Nodup ∧
      ∀ m' h', render shown m' h' = render shown onePage.1 onePage.2 →
        m' = onePage.1 ∧ h'.buckets = onePage.2.buckets ∧ h'.count = onePage.2.count ∧
          shown h'.sum = shown onePage.2.sum := by
  have hread := render_read shown_plain onePage.1 onePage.2
  refine ⟨?_, hread⟩
  rw [hread.1]
  decide +kernel

end Exposition

end Oreshnek
