import Wireframe.Document.Settings

/-! Documents: settings, and components in the order in which they are drawn. -/

namespace Wireframe

structure Document where
  settings : Settings := {}
  components : List Component := []
  deriving DecidableEq

def Document.ranges (d : Document) : List Range := d.components.map (·.range)

end Wireframe
