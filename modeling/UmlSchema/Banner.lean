import UmlSchema.Text.Blank
import UmlSchema.Text.Lines

/-! Banners: comment lines in front of a finished document. -/
namespace UmlSchema

def commentLine (line : Text) : Text :=
  if line.startsWith "#" || line.isBlank then line else "# " ++ line

def trimFeeds (t : Text) : Text := (t.reverse.dropWhile (· = .lineFeed)).reverse

def bannerBlock (banner : Text) : Text := Text.unlines ((trimFeeds banner).lines.map commentLine)

def addBanner (banner document : Text) : Text := bannerBlock banner ++ "\n\n" ++ document

/-- Adds several banners; each goes in front of those before it. -/
def addBanners (banners : List Text) (document : Text) : Text :=
  banners.foldl (fun d b => addBanner b d) document

end UmlSchema
