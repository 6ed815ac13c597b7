import Deadwood.Import.Basic
import Deadwood.Path.Relative

/-!
# Resolution

Finds the file that a local specifier stands for among the files of a project: the place that it
names, that place with one of the extensions of a module, or the index file of that folder,
whichever of these is there first. Packages and path aliases are not looked up.
-/

namespace Deadwood

/-- The extensions of modules, in the order in which they are tried. -/
def moduleExtensions : List String := ["js", "mjs", "cjs", "ts", "tsx", "jsx"]

/-- The extensions with which a specifier names a file as it is. -/
def fileExtensions : List String :=
  ["js", "mjs", "cjs", "ts", "mts", "cts", "tsx", "jsx", "json", "vue", "svelte", "css", "scss"]

namespace Resolution

/-- The place that a specifier names, seen from the folder of the importing file. -/
def target (folder : List Component) (specifier : String) : Path :=
  let steps := (Path.mk specifier).components
  Path.ofComponents <| Path.normalComponents <|
    if (Path.mk specifier).isAbsolute then steps else folder ++ steps

/-- The files that a place may stand for, best first. -/
def candidates (place : Path) : List Path :=
  if place.extension?.any fileExtensions.contains then [place]
  else
    place :: moduleExtensions.map place.addExtension ++
      moduleExtensions.map fun ext => place.join ⟨"index." ++ ext⟩

/-- The known file that a specifier stands for in the importing file. -/
def resolve? (known : List Path) (importer : Path) (specifier : String) : Option Path :=
  if Import.isLocal specifier then
    importer.parentComponents?.bind fun folder =>
      (candidates (target folder specifier)).find? fun p => p.isIn known
  else none

end Resolution
end Deadwood
