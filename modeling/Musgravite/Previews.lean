import Musgravite.LabDetail
import Musgravite.Library.TransitionSystem

/-! # Previews of downloaded files

A tap on a document or on an image of a classroom downloads the file and opens a
preview of it.  All downloads of the app go to one directory, under the last path
component of their URL, and replace what is there; and all previews of a cell read
one variable of the cell, `slsfile` or `slsimage`, when QuickLook asks for the file.

`Previews` has any number of cells and any downloads and previews in progress.
`previews_show_iff` says in which runs every open preview shows the file that was tapped:
what the condition rules out is a download under a name that an open preview of
another URL has been given, and a preview that asks after another download of its
cell, or another download of the same name, has come in between. -/
namespace Musgravite

/-! ## The last entry of a log for a key -/

section Log
variable {α κ : Type} [DecidableEq κ] (key : α → κ)

/-- The entry of the log for a key, the newest entry being the first. -/
def lastFor (log : List α) (k : κ) : Option α := log.find? fun x => key x = k

@[simp] theorem lastFor_nil (k : κ) : lastFor key [] k = none := rfl

theorem lastFor_cons (x : α) (log : List α) :
    lastFor key (x :: log) = Function.update (lastFor key log) (key x) (some x) := by
  funext k
  by_cases h : k = key x
  · subst h
    simp [lastFor]
  · rw [Function.update_of_ne h, lastFor, List.find?_cons_of_neg (by simpa using Ne.symm h)]
    rfl

theorem key_of_lastFor {log : List α} {k : κ} {x : α} (h : lastFor key log k = some x) :
    key x = k := by
  simpa using List.find?_some h

end Log

/-! ## Cells, downloads and previews -/

/-- An open preview: its cell, the URL that was tapped, and the name of the file it has
been given. -/
structure Preview (ι URL : Type) where
  cell : ι
  url : URL
  given : Option String := none

/-- The cells of kind `ResourcesTableViewCell` and `ImageCarrouselTableViewCell`, with the
directory they share.  The two logs are history: which downloads have been written and
which have been completed, the newest first. -/
structure Previews (ι URL : Type) where
  /-- The directory: whose content is there under a name. -/
  files : String → Option URL := fun _ => none
  /-- Downloads in progress. -/
  downloads : List (ι × URL) := []
  /-- Downloads whose file is there and whose completion block has not run. -/
  responses : List (ι × URL) := []
  slsfile : ι → Option String := fun _ => none
  previews : List (Preview ι URL) := []
  written : List URL := []
  completed : List (ι × URL) := []

namespace Previews
variable {ι URL : Type} [DecidableEq ι] (urls : URLs URL)

/-- The name in the directory that a download is written to. -/
def destination (url : URL) : String := urls.lastPathComponent url

/-- The two download methods do the same. -/
def download (self : Previews ι URL) (cell : ι) (url : URL) : Previews ι URL :=
  { self with downloads := self.downloads ++ [(cell, url)] }

def downloadFile (self : Previews ι URL) (cell : ι) (url : URL) : Previews ι URL :=
  self.download cell url

def downloadImage (self : Previews ι URL) (cell : ι) (url : URL) : Previews ι URL :=
  self.download cell url

inductive Event (ι URL : Type)
  /-- A tap on a document. -/
  | didSelectRowAt (cell : ι) (url : URL)
  /-- A tap on an image. -/
  | didSelectItemAt (cell : ι) (url : URL)
  /-- The `k`-th download in progress is written to its destination. -/
  | write (k : Nat)
  /-- The completion block of the `k`-th written download runs. -/
  | complete (k : Nat)
  /-- The `k`-th preview asks its data source for the file. -/
  | previewItemAt (k : Nat)
  /-- The `k`-th preview is closed. -/
  | close (k : Nat)

/-- The state after an event, `none` if it cannot happen or `slsfile!` traps. -/
def step (self : Previews ι URL) : Event ι URL → Option (Previews ι URL)
  | .didSelectRowAt cell url => some (self.downloadFile cell url)
  | .didSelectItemAt cell url => some (self.downloadImage cell url)
  | .write k => self.downloads[k]?.map fun d => { self with
      downloads := self.downloads.eraseIdx k
      responses := self.responses ++ [d]
      files := Function.update self.files (destination urls d.2) (some d.2)
      written := d.2 :: self.written }
  | .complete k => self.responses[k]?.map fun d => { self with
      responses := self.responses.eraseIdx k
      slsfile := Function.update self.slsfile d.1 (some (destination urls d.2))
      previews := self.previews ++ [{ cell := d.1, url := d.2 }]
      completed := d :: self.completed }
  | .previewItemAt k => do
      let preview ← self.previews[k]?
      let slsfile ← self.slsfile preview.cell
      return { self with previews := self.previews.set k { preview with given := some slsfile } }
  | .close k => self.previews[k]?.map fun _ => { self with
      previews := self.previews.eraseIdx k }

end Previews

/-- Cells, downloads and previews. -/
def quickLook {URL : Type} (urls : URLs URL) (ι : Type) [DecidableEq ι] :
    TransitionSystem (Previews ι URL) (Previews.Event ι URL) := ⟨Previews.step urls⟩

namespace Previews
variable {ι URL : Type} [DecidableEq ι] {urls : URLs URL} {s t : Previews ι URL}

/-- The directory holds the downloads written last, and each cell names the one
completed last. -/
structure Sound (urls : URLs URL) (s : Previews ι URL) : Prop where
  files : s.files = lastFor (destination urls) s.written
  slsfile : ∀ i, s.slsfile i =
    (lastFor Prod.fst s.completed i).map fun d => destination urls d.2

theorem sound_start : Sound urls ({} : Previews ι URL) := ⟨rfl, fun _ => rfl⟩

theorem Sound.step {a : Event ι URL} (hs : Sound urls s)
    (h : (quickLook urls ι).step s a = some t) : Sound urls t := by
  cases a with
  | didSelectRowAt cell url =>
    obtain rfl := Option.some.inj h
    exact ⟨hs.files, hs.slsfile⟩
  | didSelectItemAt cell url =>
    obtain rfl := Option.some.inj h
    exact ⟨hs.files, hs.slsfile⟩
  | write k =>
    obtain ⟨d, -, rfl⟩ := Option.map_eq_some_iff.mp h
    exact ⟨by rw [lastFor_cons, ← hs.files], hs.slsfile⟩
  | complete k =>
    obtain ⟨d, -, rfl⟩ := Option.map_eq_some_iff.mp h
    refine ⟨hs.files, fun i => ?_⟩
    rw [lastFor_cons]
    by_cases hi : i = d.1
    · subst hi
      simp
    · simp only [Function.update_of_ne hi, hs.slsfile i]
  | previewItemAt k =>
    obtain ⟨preview, -, h⟩ := Option.bind_eq_some_iff.mp h
    obtain ⟨slsfile, -, h⟩ := Option.bind_eq_some_iff.mp h
    obtain rfl := Option.some.inj h
    exact ⟨hs.files, hs.slsfile⟩
  | close k =>
    obtain ⟨preview, -, rfl⟩ := Option.map_eq_some_iff.mp h
    exact ⟨hs.files, hs.slsfile⟩

/-- Every open preview that has been given a file shows the content that was tapped. -/
def Shows (s : Previews ι URL) : Prop :=
  ∀ preview ∈ s.previews, ∀ name, preview.given = some name → s.files name = some preview.url

omit [DecidableEq ι] in
/-- What a preview shows is what was tapped. -/
theorem Shows.eq_of_mem (h : Shows s) {url content : URL}
    (hmem : (url, some content) ∈ s.previews.map fun p => (p.url, p.given.bind s.files)) :
    content = url := by
  obtain ⟨preview, hpreview, hshown⟩ := List.mem_map.mp hmem
  obtain ⟨rfl, hcontent⟩ := Prod.mk.inj hshown
  obtain ⟨name, hgiven, hfile⟩ := Option.bind_eq_some_iff.mp hcontent
  exact Option.some.inj (hfile.symm.trans (h preview hpreview name hgiven))

/-- The condition on a step.  A download is not written under a name that an open
preview of another URL has been given; and when a preview asks, the last download
completed in its cell has the name of its own URL, and the last download written under
that name is of its own URL. -/
def KeepsShown (urls : URLs URL) (s : Previews ι URL) : Event ι URL → Prop
  | .write k => ∀ d, s.downloads[k]? = some d → ∀ preview ∈ s.previews,
      preview.given = some (destination urls d.2) → preview.url = d.2
  | .previewItemAt k => ∀ preview, s.previews[k]? = some preview →
      (lastFor Prod.fst s.completed preview.cell).map (fun d => destination urls d.2) =
          some (destination urls preview.url) ∧
        lastFor (destination urls) s.written (destination urls preview.url) = some preview.url
  | _ => True

/-- **One step keeps the previews right exactly if it meets the condition.** -/
theorem shows_step {a : Event ι URL} (hs : Sound urls s) (h : Shows s)
    (hstep : (quickLook urls ι).step s a = some t) : Shows t ↔ KeepsShown urls s a := by
  cases a with
  | didSelectRowAt cell url =>
    obtain rfl := Option.some.inj hstep
    exact iff_of_true h trivial
  | didSelectItemAt cell url =>
    obtain rfl := Option.some.inj hstep
    exact iff_of_true h trivial
  | write k =>
    obtain ⟨d, hd, rfl⟩ := Option.map_eq_some_iff.mp hstep
    simp only [KeepsShown, hd, Option.some.injEq, forall_eq']
    constructor
    · intro ht preview hpreview hgiven
      have := ht preview hpreview _ hgiven
      simpa [eq_comm] using this
    · intro hC preview hpreview name hgiven
      by_cases hname : name = destination urls d.2
      · subst hname
        simp [hC preview hpreview hgiven]
      · simp only [Function.update_of_ne hname]
        exact h preview hpreview name hgiven
  | complete k =>
    obtain ⟨d, hd, rfl⟩ := Option.map_eq_some_iff.mp hstep
    refine iff_of_true (fun preview hpreview name hgiven => ?_) trivial
    rcases List.mem_append.mp hpreview with hpreview | hpreview
    · exact h preview hpreview name hgiven
    · -- the new preview has not asked yet
      obtain rfl := List.mem_singleton.mp hpreview
      cases hgiven
  | previewItemAt k =>
    obtain ⟨preview, hpreview, hstep⟩ := Option.bind_eq_some_iff.mp hstep
    obtain ⟨slsfile, hslsfile, hstep⟩ := Option.bind_eq_some_iff.mp hstep
    obtain rfl := Option.some.inj hstep
    obtain ⟨hk, -⟩ := List.getElem?_eq_some_iff.mp hpreview
    simp only [KeepsShown, hpreview, Option.some.injEq, forall_eq', ← hs.slsfile, hslsfile,
      ← hs.files]
    constructor
    · intro ht
      have hfile : s.files slsfile = some preview.url :=
        ht _ (List.mem_set hk _) slsfile rfl
      -- what is under a name has that name
      have hname : destination urls preview.url = slsfile :=
        key_of_lastFor (destination urls) (hs.files ▸ hfile)
      exact ⟨hname.symm, hname ▸ hfile⟩
    · rintro ⟨rfl, hfile⟩ p hp name hgiven
      rcases List.mem_or_eq_of_mem_set hp with hp | rfl
      · exact h p hp name hgiven
      · obtain rfl := Option.some.inj hgiven
        exact hfile
  | close k =>
    obtain ⟨preview, hpreview, rfl⟩ := Option.map_eq_some_iff.mp hstep
    exact iff_of_true (fun p hp => h p (List.mem_of_mem_eraseIdx hp)) trivial

end Previews

/-- **When every open preview shows the file that was tapped**: in all states of a run
exactly if all its steps meet `KeepsShown`. -/
theorem previews_show_iff {URL : Type} (urls : URLs URL) {ι : Type} [DecidableEq ι]
    (s : Previews ι URL) (as : List (Previews.Event ι URL))
    (hrun : (quickLook urls ι).run {} as = some s) :
    (∀ u, (quickLook urls ι).Visits {} as u → Previews.Shows u) ↔
      (quickLook urls ι).Meets (Previews.KeepsShown urls) {} as :=
  (quickLook urls ι).visited_iff_meets (I := Previews.Sound urls) (fun hs h => hs.step h)
    (fun hs h hstep => Previews.shows_step hs h hstep) Previews.sound_start
    (fun _ hpreview => nomatch hpreview) hrun

/-- A document is tapped, downloaded and shown, and then an image of the same cell. -/
def twoDownloads : List (Previews.Event Unit String) :=
  [.didSelectRowAt () "https://a/x.pdf", .write 0, .complete 0, .previewItemAt 0,
    .didSelectItemAt () "https://a/y.png", .write 0, .complete 0, .previewItemAt 1]

theorem previews_show_two :
    ∃ s, (quickLook httpsURLs Unit).run {} twoDownloads = some s ∧
      ∀ u, (quickLook httpsURLs Unit).Visits {} twoDownloads u → Previews.Shows u := by
  refine ⟨_, rfl, (previews_show_iff httpsURLs _ twoDownloads rfl).mpr ?_⟩
  refine ((quickLook httpsURLs Unit).meets_cons _ rfl).mpr ⟨trivial, ?_⟩
  refine ((quickLook httpsURLs Unit).meets_cons _ rfl).mpr ⟨fun _ _ _ h => (nomatch h), ?_⟩
  refine ((quickLook httpsURLs Unit).meets_cons _ rfl).mpr ⟨trivial, ?_⟩
  refine ((quickLook httpsURLs Unit).meets_cons _ rfl).mpr ⟨?_, ?_⟩
  · rintro preview hpreview
    obtain rfl := Option.some.inj hpreview
    exact ⟨rfl, rfl⟩
  refine ((quickLook httpsURLs Unit).meets_cons _ rfl).mpr ⟨trivial, ?_⟩
  refine ((quickLook httpsURLs Unit).meets_cons _ rfl).mpr ⟨?_, ?_⟩
  · -- the open preview has been given a file of another name
    rintro d hd preview hpreview hgiven
    obtain rfl := Option.some.inj hd
    obtain rfl := List.mem_singleton.mp hpreview
    exact absurd (Option.some.inj hgiven) (by decide)
  refine ((quickLook httpsURLs Unit).meets_cons _ rfl).mpr ⟨trivial, ?_⟩
  refine ((quickLook httpsURLs Unit).meets_cons _ rfl).mpr ⟨?_, trivial⟩
  rintro preview hpreview
  obtain rfl := Option.some.inj hpreview
  exact ⟨rfl, rfl⟩

/-- Two resources of one name: the second download replaces the file that the preview of
the first has been given.  And two documents of one cell: the first preview asks after
the second download has been completed, and is given the second document. -/
theorem previews_show_another :
    (∃ s, (quickLook httpsURLs Nat).run {} [.didSelectRowAt 0 "https://a/x.pdf", .write 0,
        .complete 0, .previewItemAt 0, .didSelectRowAt 1 "https://b/x.pdf", .write 0] = some s ∧
      (s.previews.map fun p => (p.url, p.given.bind s.files)) =
        [("https://a/x.pdf", some "https://b/x.pdf")] ∧ ¬ Previews.Shows s) ∧
    ∃ s, (quickLook httpsURLs Nat).run {} [.didSelectRowAt 0 "https://a/x.pdf",
        .didSelectRowAt 0 "https://a/y.pdf", .write 0, .write 0, .complete 0, .complete 0,
        .previewItemAt 0, .previewItemAt 1] = some s ∧
      (s.previews.map fun p => (p.url, p.given.bind s.files)) =
        [("https://a/x.pdf", some "https://a/y.pdf"),
          ("https://a/y.pdf", some "https://a/y.pdf")] ∧ ¬ Previews.Shows s := by
  refine ⟨⟨_, rfl, by decide +kernel, fun h => ?_⟩, _, rfl, by decide +kernel, fun h => ?_⟩
  · have hother : "https://b/x.pdf" = "https://a/x.pdf" := h.eq_of_mem (by decide +kernel)
    exact absurd hother (by decide)
  · have hother : "https://a/y.pdf" = "https://a/x.pdf" := h.eq_of_mem (by decide +kernel)
    exact absurd hother (by decide)

end Musgravite
