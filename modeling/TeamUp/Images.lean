import TeamUp.Models
import TeamUp.Runs

/-!
# Images on disk

Profile pictures, game backgrounds and game logos are kept as files in the documents
directory, and downloaded images in a memory cache.  The cache is keyed by the URL, the
files by the letters and digits of a picture's URL or by the name of the game.  What is
delivered is what is served at the URL of the request as long as no two calls with one
file have different URLs.
-/

namespace TeamUp

/-- UIKit, the URL parser, the servers and the documents directory. -/
structure Platform (Image Data Size Path : Type) where
  /-- `URL(string:)`, by its `absoluteString` -/
  url : String → Option String
  /-- What is served at a URL, which never changes. -/
  serve : String → Option Image
  /-- The file a path component names in the documents directory. -/
  path : String → Path
  size : Image → Size
  resize : Image → Size → Image
  jpegData : Image → Option Data
  pngData : Image → Option Data
  contentsOfFile : Data → Option Image
  /-- As wide as the screen. -/
  backgroundSize : Size

/-- A call of `fetchProfilePicture`, `fetchGameBackground` or `fetchGameLogo`. -/
inductive ImageRequest where
  | profilePicture (picUrl : String)
  | gameBackground (game : Game)
  | gameLogo (game : Game)
deriving DecidableEq

def okayChars : List Char :=
  "abcdefghijklmnopqrstuvwxyzABCDEFGHIJKLKMNOPQRSTUVWXYZ1234567890".toList

/-- Of a URL, which is ASCII: its characters are its scalars. -/
def removeSpecialCharsFromString (s : String) : String :=
  String.ofList (s.toList.filter fun c => okayChars.contains c)

namespace ImageRequest

def pathComponent : ImageRequest → String
  | .profilePicture picUrl => removeSpecialCharsFromString picUrl ++ ".jpg"
  | .gameBackground game => game.name ++ "_background.jpg"
  | .gameLogo game => game.name ++ "_logo.png"

def imageUrl : ImageRequest → String
  | .profilePicture picUrl => picUrl
  | .gameBackground game => game.backgroundImageUrl
  | .gameLogo game => game.logoImageUrl

end ImageRequest

/-- What a completion is called with. -/
inductive Delivery (Image : Type) where
  | image (image : Image)
  | defaultProfilePic
  | nothing
deriving DecidableEq

structure ImageStore (Image Data Path : Type) where
  files : Path → Option Data
  cache : String → Option Image
  /-- The downloads under way, with their URLs. -/
  downloads : List (ImageRequest × String)
  /-- The completions of downloads that have not run. -/
  completions : List (ImageRequest × Option Image)
  /-- The calls so far, and what was delivered for them. -/
  calls : List ImageRequest
  delivered : List (ImageRequest × Delivery Image)

inductive ImageEvent where
  /-- A call; whether a file that it writes at once is written. -/
  | fetch (request : ImageRequest) (written : Bool)
  | downloaded (index : Nat) (success : Bool)
  | completed (index : Nat) (written : Bool)
  /-- The cache may drop an image at any time. -/
  | evicted (url : String)
  | relaunched
deriving DecidableEq

namespace ImageStore

variable {Image Data Size Path : Type} [DecidableEq Path]
variable (U : Platform Image Data Size Path)

def empty : ImageStore Image Data Path :=
  { files := fun _ => none, cache := fun _ => none, downloads := [], completions := []
    calls := [], delivered := [] }

def getImageFromFile (s : ImageStore Image Data Path) (pathComponent : String) : Option Image :=
  (s.files (U.path pathComponent)).bind U.contentsOfFile

/-- Write the data of an image, if there are any and the write succeeds. -/
def write (s : ImageStore Image Data Path) (pathComponent : String) (data : Option Data)
    (written : Bool) : ImageStore Image Data Path :=
  match data with
  | some data =>
      if written then
        { s with files := Function.update s.files (U.path pathComponent) (some data) }
      else s
  | none => s

def storeJpgToFile (s : ImageStore Image Data Path) (image : Image) (pathComponent : String)
    (size : Size) (written : Bool) : ImageStore Image Data Path :=
  s.write U pathComponent (U.jpegData (U.resize image size)) written

def storePngToFile (s : ImageStore Image Data Path) (image : Image) (pathComponent : String)
    (size : Size) (written : Bool) : ImageStore Image Data Path :=
  s.write U pathComponent (U.pngData (U.resize image size)) written

def deliver (s : ImageStore Image Data Path) (request : ImageRequest) (delivery : Delivery Image) :
    ImageStore Image Data Path :=
  { s with delivered := s.delivered ++ [(request, delivery)] }

/-- What a request without an image is answered. -/
def missing : ImageRequest → Delivery Image
  | .profilePicture _ => .defaultProfilePic
  | .gameBackground _ | .gameLogo _ => .nothing

/-- The closure a request hands to `getImage`. -/
def complete (s : ImageStore Image Data Path) (request : ImageRequest) (image : Option Image)
    (written : Bool) : ImageStore Image Data Path :=
  match image, request with
  | none, request => s.deliver request (missing request)
  | some image, .profilePicture _ =>
      (s.storeJpgToFile U image request.pathComponent (U.size image) written).deliver request
        (.image image)
  | some image, .gameBackground _ =>
      (s.storeJpgToFile U image request.pathComponent U.backgroundSize written).deliver request
        (.image (U.resize image U.backgroundSize))
  | some image, .gameLogo _ =>
      (s.storePngToFile U image request.pathComponent (U.size image) written).deliver request
        (.image image)

/-- `ImageService.getImage` -/
def getImage (s : ImageStore Image Data Path) (request : ImageRequest) (url : String)
    (written : Bool) : ImageStore Image Data Path :=
  match s.cache url with
  | some image => s.complete U request (some image) written
  | none => { s with downloads := s.downloads ++ [(request, url)] }

def fetch (s : ImageStore Image Data Path) (request : ImageRequest) (written : Bool) :
    ImageStore Image Data Path :=
  let s := { s with calls := request :: s.calls }
  match s.getImageFromFile U request.pathComponent with
  | some image => s.deliver request (.image image)
  | none =>
      match U.url request.imageUrl with
      | some url => s.getImage U request url written
      | none => s.deliver request (missing request)

def step (s : ImageStore Image Data Path) : ImageEvent → Option (ImageStore Image Data Path)
  | .fetch request written => some (s.fetch U request written)
  | .downloaded index success =>
      match s.downloads[index]? with
      | some (request, url) =>
          let image := if success then U.serve url else none
          some { s with
            cache := if image.isSome then Function.update s.cache url image else s.cache
            downloads := s.downloads.eraseIdx index
            completions := s.completions ++ [(request, image)] }
      | none => none
  | .completed index written =>
      match s.completions[index]? with
      | some (request, image) =>
          some ({ s with completions := s.completions.eraseIdx index }.complete U request image
            written)
      | none => none
  | .evicted url => some { s with cache := Function.update s.cache url none }
  | .relaunched => some { s with cache := fun _ => none, downloads := [], completions := [] }

/-! ### What is delivered -/

/-- An image, resized and re-encoded any number of times. -/
inductive Processed (image : Image) : Image → Prop
  | served : Processed image image
  | resized {i : Image} (size : Size) : Processed image i → Processed image (U.resize i size)
  | jpeg {i j : Image} {data : Data} : Processed image i → U.jpegData i = some data →
      U.contentsOfFile data = some j → Processed image j
  | png {i j : Image} {data : Data} : Processed image i → U.pngData i = some data →
      U.contentsOfFile data = some j → Processed image j

/-- An image is, but for its size and encoding, the one served at the URL of a request. -/
def ServedFor (request : ImageRequest) (i : Image) : Prop :=
  ∃ url image, U.url request.imageUrl = some url ∧ U.serve url = some image ∧
    Processed U image i

/-- Every image delivered for a request is the one served at its URL. -/
def Transparent (s : ImageStore Image Data Path) : Prop :=
  ∀ request i, (request, .image i) ∈ s.delivered → ServedFor U request i

/-- A call has the URL of every earlier call with the same file, if an image is served there. -/
def SameUrl (s : ImageStore Image Data Path) : ImageEvent → Prop
  | .fetch request _ => ∀ earlier ∈ s.calls,
      U.path earlier.pathComponent = U.path request.pathComponent →
      ∀ url ∈ U.url earlier.imageUrl, (U.serve url).isSome → U.url request.imageUrl = some url
  | _ => True

/-! ### The invariant -/

/-- Every file was written for a call that names it, everything cached is what is served, and
    what is under way is for the URL of its call. -/
structure Sound (s : ImageStore Image Data Path) : Prop where
  files : ∀ p data i, s.files p = some data → U.contentsOfFile data = some i →
    ∃ request ∈ s.calls, U.path request.pathComponent = p ∧ ServedFor U request i
  cache : ∀ url i, s.cache url = some i → U.serve url = some i
  downloads : ∀ d ∈ s.downloads, d.1 ∈ s.calls ∧ U.url d.1.imageUrl = some d.2
  completions : ∀ c ∈ s.completions, c.1 ∈ s.calls ∧
    ∀ i ∈ c.2, ∃ url, U.url c.1.imageUrl = some url ∧ U.serve url = some i
  delivered : Transparent U s

variable {U} {s t : ImageStore Image Data Path} {request : ImageRequest}

omit [DecidableEq Path] in
theorem sound_empty : Sound U (empty : ImageStore Image Data Path) where
  files := fun p data i h => (by cases h)
  cache := fun url i h => (by cases h)
  downloads := fun d h => (by cases h)
  completions := fun c h => (by cases h)
  delivered := fun r i h => (by cases h)

/-- A file is written for a call. -/
theorem Sound.write (h : Sound U s) (hcall : request ∈ s.calls) {data : Option Data}
    (hdata : ∀ d ∈ data, ∀ i, U.contentsOfFile d = some i → ServedFor U request i)
    (written : Bool) : Sound U (s.write U request.pathComponent data written) := by
  unfold ImageStore.write
  split
  · rename_i d
    split
    · refine ⟨fun p d' i hfile hread => ?_, h.cache, h.downloads, h.completions, h.delivered⟩
      by_cases hp : p = U.path request.pathComponent
      · subst hp
        simp only [Function.update_self, Option.some.injEq] at hfile
        subst hfile
        exact ⟨request, hcall, rfl, hdata d rfl i hread⟩
      · simp only [Function.update_of_ne hp] at hfile
        exact h.files p d' i hfile hread
    · exact h
  · exact h

omit [DecidableEq Path] in
theorem Sound.deliver (h : Sound U s) {delivery : Delivery Image}
    (hdelivery : ∀ i, delivery = .image i → ServedFor U request i) :
    Sound U (s.deliver request delivery) := by
  refine ⟨h.files, h.cache, h.downloads, h.completions, fun r i hmem => ?_⟩
  rcases List.mem_append.mp hmem with hold | hnew
  · exact h.delivered r i hold
  · obtain ⟨rfl, heq⟩ := Prod.mk.inj (List.mem_singleton.mp hnew)
    exact hdelivery i heq.symm

theorem missing_ne_image (request : ImageRequest) (i : Image) :
    (missing request : Delivery Image) ≠ .image i := by
  cases request <;> exact fun h => (by cases h)

omit [DecidableEq Path] in
theorem Sound.missing (h : Sound U s) :
    Sound U (s.deliver request (missing request)) :=
  h.deliver fun i heq => (missing_ne_image request i heq).elim

@[simp] theorem write_calls (s : ImageStore Image Data Path) (pathComponent : String)
    (data : Option Data) (written : Bool) :
    (s.write U pathComponent data written).calls = s.calls := by
  unfold write
  split
  · split <;> rfl
  · rfl

/-- A completion stores and delivers the image served at the URL of its request. -/
theorem Sound.complete (h : Sound U s) (hcall : request ∈ s.calls) {image : Option Image}
    (himage : ∀ i ∈ image, ∃ url, U.url request.imageUrl = some url ∧ U.serve url = some i)
    (written : Bool) : Sound U (s.complete U request image written) := by
  cases image with
  | none => exact h.missing
  | some image =>
    obtain ⟨url, hurl, hserve⟩ := himage image rfl
    have hserved : ∀ {i : Image}, Processed U image i → ServedFor U request i :=
      fun hprocessed => ⟨url, image, hurl, hserve, hprocessed⟩
    have hjpeg : ∀ size, ∀ d ∈ U.jpegData (U.resize image size), ∀ i,
        U.contentsOfFile d = some i → ServedFor U request i :=
      fun size d hd i hread => hserved (.jpeg (.resized size .served) hd hread)
    cases request with
    | profilePicture picUrl =>
      refine (h.write hcall (hjpeg (U.size image)) written).deliver fun i heq => ?_
      exact Delivery.image.inj heq ▸ hserved .served
    | gameBackground game =>
      refine (h.write hcall (hjpeg U.backgroundSize) written).deliver fun i heq => ?_
      exact Delivery.image.inj heq ▸ hserved (.resized _ .served)
    | gameLogo game =>
      have hpng : ∀ d ∈ U.pngData (U.resize image (U.size image)), ∀ i,
          U.contentsOfFile d = some i → ServedFor U (.gameLogo game) i :=
        fun d hd i hread => hserved (.png (.resized _ .served) hd hread)
      refine (h.write hcall hpng written).deliver fun i heq => ?_
      exact Delivery.image.inj heq ▸ hserved .served

omit [DecidableEq Path] in
/-- A call is made. -/
theorem Sound.call (h : Sound U s) (request : ImageRequest) :
    Sound U { s with calls := request :: s.calls } where
  files := by
    intro p data i hfile hread
    obtain ⟨earlier, hmem, hpath, hserved⟩ := h.files p data i hfile hread
    exact ⟨earlier, List.mem_cons_of_mem _ hmem, hpath, hserved⟩
  cache := h.cache
  downloads := fun d hd => (h.downloads d hd).imp_left (List.mem_cons_of_mem _)
  completions := fun c hc => (h.completions c hc).imp_left (List.mem_cons_of_mem _)
  delivered := h.delivered

theorem Sound.fetch (h : Sound U s) {written : Bool}
    (hsame : SameUrl U s (.fetch request written)) :
    Sound U (s.fetch U request written) := by
  have hcalled := h.call request
  have hcall : request ∈ request :: s.calls := List.mem_cons_self
  simp only [ImageStore.fetch]
  split
  · rename_i image hfile
    obtain ⟨data, hdata, hread⟩ := Option.bind_eq_some_iff.mp hfile
    refine hcalled.deliver fun i heq => ?_
    obtain rfl := Delivery.image.inj heq
    -- the file was written for an earlier call, with the same URL
    obtain ⟨earlier, hmem, hpath, url, served, hurl, hserve, hprocessed⟩ :=
      h.files _ data image hdata hread
    exact ⟨url, served, hsame earlier hmem hpath url hurl (by rw [hserve]; rfl), hserve,
      hprocessed⟩
  · split
    · rename_i url hurl
      unfold getImage
      split
      · rename_i image hcached
        refine hcalled.complete hcall (fun i hi => ⟨url, hurl, ?_⟩) written
        exact Option.some.inj hi ▸ h.cache url image hcached
      · refine ⟨hcalled.files, hcalled.cache, fun d hd => ?_, hcalled.completions,
          hcalled.delivered⟩
        rcases List.mem_append.mp hd with hold | hnew
        · exact hcalled.downloads d hold
        · rw [List.mem_singleton.mp hnew]
          exact ⟨hcall, hurl⟩
    · exact hcalled.missing

omit [DecidableEq Path] in
/-- The cache keeps what is served at a URL, or drops it. -/
theorem Sound.cached (h : Sound U s) {url : String} {image : Option Image}
    (hserve : ∀ i ∈ image, U.serve url = some i) :
    Sound U { s with cache := Function.update s.cache url image } := by
  refine ⟨h.files, fun url' i hcached => ?_, h.downloads, h.completions, h.delivered⟩
  by_cases hthis : url' = url
  · subst hthis
    simp only [Function.update_self] at hcached
    exact hserve i hcached
  · simp only [Function.update_of_ne hthis] at hcached
    exact h.cache url' i hcached

omit [DecidableEq Path] in
/-- A download ends; what it brings is cached and handed to the completion of its call. -/
theorem Sound.downloaded (h : Sound U s) {index : Nat} {url : String}
    (hdownload : s.downloads[index]? = some (request, url)) {image : Option Image}
    (hserve : ∀ i ∈ image, U.serve url = some i) :
    Sound U { s with
      cache := if image.isSome then Function.update s.cache url image else s.cache
      downloads := s.downloads.eraseIdx index
      completions := s.completions ++ [(request, image)] } := by
  obtain ⟨hcall, hurl⟩ := h.downloads _ (List.mem_of_getElem? hdownload)
  have hcache : Sound U { s with
      cache := if image.isSome then Function.update s.cache url image else s.cache } := by
    split
    · exact h.cached hserve
    · exact h
  refine ⟨h.files, hcache.cache, fun d hd => h.downloads d (List.mem_of_mem_eraseIdx hd),
    fun c hc => ?_, h.delivered⟩
  rcases List.mem_append.mp hc with hold | hnew
  · exact h.completions c hold
  · rw [List.mem_singleton.mp hnew]
    exact ⟨hcall, fun i hi => ⟨url, hurl, hserve i hi⟩⟩

/-- **One step** in which a call has the URL of the earlier ones with its file. -/
theorem Sound.step (h : Sound U s) {e : ImageEvent} (hsame : SameUrl U s e)
    (hst : s.step U e = some t) : Sound U t := by
  cases e with
  | fetch request written =>
    obtain rfl := Option.some.inj hst
    exact h.fetch hsame
  | downloaded index success =>
    simp only [ImageStore.step] at hst
    split at hst
    · rename_i request url hdownload
      obtain rfl := Option.some.inj hst
      refine h.downloaded hdownload fun i hi => ?_
      split at hi
      · exact hi
      · cases hi
    · cases hst
  | completed index written =>
    simp only [ImageStore.step] at hst
    split at hst
    · rename_i request image hcompletion
      obtain rfl := Option.some.inj hst
      obtain ⟨hcall, himage⟩ := h.completions _ (List.mem_of_getElem? hcompletion)
      have hrest : Sound U { s with completions := s.completions.eraseIdx index } :=
        ⟨h.files, h.cache, h.downloads,
          fun c hc => h.completions c (List.mem_of_mem_eraseIdx hc), h.delivered⟩
      exact hrest.complete hcall himage written
    · cases hst
  | evicted url =>
    obtain rfl := Option.some.inj hst
    exact h.cached fun i hi => (by cases hi)
  | relaunched =>
    obtain rfl := Option.some.inj hst
    exact ⟨h.files, fun url i hcached => (by cases hcached), fun d hd => (by cases hd),
      fun c hc => (by cases hc), h.delivered⟩

end ImageStore

/-! ### Files -/

theorem not_mem_removeSpecialChars {c : Char} (hc : c ∉ okayChars) (s : String) :
    c ∉ (removeSpecialCharsFromString s).toList := by
  simp [removeSpecialCharsFromString, hc]

/-- **Two requests have the same file exactly if** they are for pictures whose URLs have the same
    letters and digits, or for the same part of games with the same name. -/
theorem ImageRequest.pathComponent_eq_iff {request other : ImageRequest} :
    request.pathComponent = other.pathComponent ↔ match request, other with
      | .profilePicture url, .profilePicture url' =>
          removeSpecialCharsFromString url = removeSpecialCharsFromString url'
      | .gameBackground game, .gameBackground game' => game.name = game'.name
      | .gameLogo game, .gameLogo game' => game.name = game'.name
      | _, _ => False := by
  have hpicture : ∀ url name suffix : String,
      removeSpecialCharsFromString url ++ ".jpg" ≠ name ++ ("_" ++ suffix) := by
    intro url name suffix heq
    have hmem : '_' ∈ (removeSpecialCharsFromString url ++ ".jpg").toList := by
      rw [heq]
      simp
    rw [String.toList_append, List.mem_append] at hmem
    rcases hmem with hin | hin
    · exact not_mem_removeSpecialChars (by decide) url hin
    · exact absurd hin (by decide)
  have hgame : ∀ name name' : String, name ++ "_background.jpg" ≠ name' ++ "_logo.png" := by
    intro name name' heq
    have hlast := congrArg (fun s : String => s.toList.reverse.take 3) heq
    simp [String.toList_append, List.reverse_append] at hlast
  cases request with
  | profilePicture url =>
    cases other with
    | profilePicture url' => exact String.append_left_inj _
    | gameBackground game => exact iff_of_false (hpicture url game.name "background.jpg") id
    | gameLogo game => exact iff_of_false (hpicture url game.name "logo.png") id
  | gameBackground game =>
    cases other with
    | profilePicture url => exact iff_of_false (hpicture url game.name "background.jpg").symm id
    | gameBackground game' => exact String.append_left_inj _
    | gameLogo game' => exact iff_of_false (hgame game.name game'.name) id
  | gameLogo game =>
    cases other with
    | profilePicture url => exact iff_of_false (hpicture url game.name "logo.png").symm id
    | gameBackground game' => exact iff_of_false (hgame game'.name game.name).symm id
    | gameLogo game' => exact String.append_left_inj _

/-! ### Runs -/

namespace ImageStore

section Runs

variable {Image Data Size Path : Type} [DecidableEq Path] (U : Platform Image Data Size Path)

instance (s : ImageStore Image Data Path) (e : ImageEvent) : Decidable (SameUrl U s e) := by
  unfold SameUrl
  split <;> infer_instance

variable {U}

/-- **The files and the cache are transparent** in every run in which no two calls with one file
    have different URLs. -/
theorem images_transparent {events : List ImageEvent} {s : ImageStore Image Data Path}
    (run : Run (step U) (SameUrl U) empty events s) : Transparent U s :=
  (run.invariant (Sound U) (fun _ _ _ hu hok hst => hu.step hok hst) sound_empty).delivered

end Runs

/-- Every URL serves an image, which is drawn and encoded as it is. -/
def faithful : Platform String String Unit String where
  url := some
  serve := some
  path := id
  size := fun _ => ()
  resize := fun image _ => image
  jpegData := some
  pngData := some
  contentsOfFile := some
  backgroundSize := ()

theorem processed_faithful {image i : String} (h : Processed faithful image i) : i = image := by
  induction h with
  | served => rfl
  | resized size _ ih => exact ih
  | jpeg _ hdata hread ih | png _ hdata hread ih =>
    rw [← Option.some.inj hread, ← Option.some.inj hdata]
    exact ih

/-- A picture is downloaded, then another one is asked for. -/
def onePictureThenAnother (picUrl other : String) : List ImageEvent :=
  [.fetch (.profilePicture picUrl) true, .downloaded 0 true, .completed 0 true,
    .fetch (.profilePicture other) true]

theorem images_transparent_again :
    ∃ s, exec (step faithful) (fun s e => decide (SameUrl faithful s e)) empty
        (onePictureThenAnother "pics/a-b" "pics/a-b") = some s ∧
      s.delivered.map Prod.snd = [.image "pics/a-b", .image "pics/a-b"] ∧
      Transparent faithful s := by
  have hend : (exec (step faithful) (fun s e => decide (SameUrl faithful s e)) empty
      (onePictureThenAnother "pics/a-b" "pics/a-b")).map (fun s => s.delivered.map Prod.snd) =
        some [.image "pics/a-b", .image "pics/a-b"] := by
    decide +kernel
  obtain ⟨s, hs, hdelivered⟩ := Option.map_eq_some_iff.mp hend
  exact ⟨s, hs, hdelivered,
    images_transparent (run_of_exec (fun _ _ h => of_decide_eq_true h) hs)⟩

theorem not_always_transparent :
    ¬ ∀ (U : Platform String String Unit String) (events : List ImageEvent)
      (s : ImageStore String String String),
      Run (step U) (fun _ _ => True) empty events s → Transparent U s := by
  intro hall
  have hend : (exec (step faithful) (fun _ _ => true) empty
      (onePictureThenAnother "pics/a-b" "pics/ab")).map (fun s => s.delivered) =
        some [(.profilePicture "pics/a-b", .image "pics/a-b"),
          (.profilePicture "pics/ab", .image "pics/a-b")] := by
    decide +kernel
  obtain ⟨s, hs, hdelivered⟩ := Option.map_eq_some_iff.mp hend
  have run : Run (step faithful) (fun _ _ => True) empty
      (onePictureThenAnother "pics/a-b" "pics/ab") s :=
    run_of_exec (fun _ _ _ => trivial) hs
  obtain ⟨url, image, hurl, hserve, hprocessed⟩ := hall faithful _ s run
    (.profilePicture "pics/ab") "pics/a-b" (by rw [hdelivered]; simp)
  have hsame := processed_faithful hprocessed
  simp only [faithful, ImageRequest.imageUrl, Option.some.injEq] at hurl hserve
  rw [← hserve, ← hurl] at hsame
  simp at hsame

end ImageStore

end TeamUp
