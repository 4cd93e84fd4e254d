import HyperStream.Sound
import HyperStream.Isolation
import HyperStream.StartupLaws
set_option autoImplicit false

namespace HyperStream

namespace MultiviewCompositor

end MultiviewCompositor

namespace Controller

variable {σ : Type}

end Controller
end HyperStream
