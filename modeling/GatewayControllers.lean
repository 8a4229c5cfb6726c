import GatewayControllers.Go.Strings
import GatewayControllers.Go.Regexp
import GatewayControllers.PiiMasking.Placeholder
import GatewayControllers.PiiMasking.Mask
import GatewayControllers.PiiMasking.Restore
import GatewayControllers.PiiMasking.RoundTrip
import GatewayControllers.PiiMasking.Redact
import GatewayControllers.PiiMasking.Hiding
import GatewayControllers.Go.Json
import GatewayControllers.PiiMasking.Params
import GatewayControllers.PromptDecorator.Path
import GatewayControllers.PromptDecorator.Params
import GatewayControllers.PromptDecorator.Request
import GatewayControllers.PiiMasking.Policy
